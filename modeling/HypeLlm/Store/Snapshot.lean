import HypeLlm.Store.Audit
import HypeLlm.Store.Replay

/-!
# The snapshot file

A snapshot is one file: metadata, then the payload the caller gave.  The metadata holds the sequence
the snapshot covers up to, the head and the count of the audit chain at that point, a digest of the
payload and an authentication code over all of it.

* `readSnapshot_encoded` — what was written is read back.
-/

namespace HypeLlm.Store

open HypeLlm.Bytes HypeLlm.Words List

/-- The snapshot payload and the position it was taken at. -/
structure SnapshotState where
  payload : List UInt8
  sequence : UInt64
  auditHead : Link
  auditCount : ℕ
  deriving Repr, DecidableEq

/-- Why a store cannot be opened. -/
inductive StoreError where
  | log (error : LogError)
  | corruptSnapshotMetadata
  | snapshotIntegrity
  | io
  deriving Repr, DecidableEq

/-- The bytes `HYMT`. -/
def metaMagic : List UInt8 := [0x48, 0x59, 0x4d, 0x54]

/-- Magic, sequence, audit head, audit count, payload digest, authentication code. -/
def metaLen : ℕ := 4 + 8 + 32 + 8 + 32 + 32

/-- The largest state file that is read: 256 MiB. -/
def maxStateFileBytes : ℕ := 256 * 1024 * 1024

variable (hs : Hashes)

/-- The metadata that the authentication code covers. -/
def signedMeta (s : SnapshotState) : List UInt8 :=
  metaMagic ++ (toLe 8 s.sequence.toNat ++ (s.auditHead.bytes ++ (toLe 8 s.auditCount ++
    ((hs.sha256 s.payload).bytes ++ []))))

/-- Encode the metadata that leads the file. -/
def encodeMeta (s : SnapshotState) (macKey : List UInt8) : List UInt8 :=
  signedMeta hs s ++ hs.hmacSha256 macKey (signedMeta hs s)

/-- The whole file of a snapshot. -/
def snapshotBytes (s : SnapshotState) (macKey : List UInt8) : List UInt8 :=
  encodeMeta hs s macKey ++ s.payload

/-- Read and authenticate the snapshot file, if there is one. -/
def readSnapshot (macKey : List UInt8) : Option (List UInt8) → Except StoreError (Option SnapshotState)
  | none => .ok none
  | some file =>
    if maxStateFileBytes < file.length then .error .io
    else if hshort : file.length < metaLen then .error .corruptSnapshotMetadata
    else
      let payload := file.drop metaLen
      let signed := file.take (metaLen - 32)
      if field signed 0 4 ≠ metaMagic then .error .corruptSnapshotMetadata
      else if field file (metaLen - 32) 32 ≠ hs.hmacSha256 macKey signed then .error .snapshotIntegrity
      else if field signed 52 32 ≠ (hs.sha256 payload).bytes then .error .snapshotIntegrity
      else .ok (some {
        payload := payload
        sequence := UInt64.ofNat (ofLe (field signed 4 8))
        auditHead := ⟨field signed 12 32, by
          simp only [field, length_take, length_drop, signed]
          unfold metaLen at hshort ⊢
          omega⟩
        auditCount := ofLe (field signed 44 8) })

/-! ### Round trip -/

variable (s : SnapshotState)

@[simp] theorem length_signedMeta : (signedMeta hs s).length = metaLen - 32 := by
  simp only [signedMeta, length_append, length_toLe, s.auditHead.length_bytes,
    (hs.sha256 s.payload).length_bytes, length_nil]
  rfl

theorem length_encodeMeta (macKey : List UInt8) : (encodeMeta hs s macKey).length = metaLen := by
  rw [encodeMeta, length_append, length_signedMeta, hs.hmacSha256_length]
  rfl

theorem field_signedMeta :
    field (signedMeta hs s) 0 4 = metaMagic ∧
      field (signedMeta hs s) 4 8 = toLe 8 s.sequence.toNat ∧
      field (signedMeta hs s) 12 32 = s.auditHead.bytes ∧
      field (signedMeta hs s) 44 8 = toLe 8 s.auditCount ∧
      field (signedMeta hs s) 52 32 = (hs.sha256 s.payload).bytes := by
  have hhead := s.auditHead.length_bytes
  have hdigest := (hs.sha256 s.payload).length_bytes
  refine ⟨rfl, ?_, ?_, ?_, ?_⟩
  · exact field_append _ rfl (length_toLe 8 _)
  · rw [signedMeta, ← append_assoc]
    exact field_append _ (by simp [metaMagic]) hhead
  · rw [signedMeta, ← append_assoc, ← append_assoc]
    exact field_append _ (by simp [metaMagic, hhead]) (length_toLe 8 _)
  · rw [signedMeta, ← append_assoc, ← append_assoc, ← append_assoc]
    exact field_append _ (by simp [metaMagic, hhead]) hdigest

/-- **A snapshot that was written is read back.** -/
theorem readSnapshot_encoded {s : SnapshotState} (macKey : List UInt8) (hcount : s.auditCount ≤ u64Max)
    (hsize : metaLen + s.payload.length ≤ maxStateFileBytes) :
    readSnapshot hs macKey (some (snapshotBytes hs s macKey)) = .ok (some s) := by
  have hlen : (snapshotBytes hs s macKey).length = metaLen + s.payload.length := by
    rw [snapshotBytes, length_append, length_encodeMeta]
  have hpayload : (snapshotBytes hs s macKey).drop metaLen = s.payload := by
    rw [snapshotBytes, ← length_encodeMeta hs s macKey, drop_left]
  have hsigned : (snapshotBytes hs s macKey).take (metaLen - 32) = signedMeta hs s := by
    rw [snapshotBytes, encodeMeta, append_assoc, ← length_signedMeta hs s, take_left]
  have hmac : field (snapshotBytes hs s macKey) (metaLen - 32) 32 =
      hs.hmacSha256 macKey (signedMeta hs s) := by
    rw [snapshotBytes, encodeMeta, append_assoc]
    exact field_append _ (length_signedMeta hs s) (hs.hmacSha256_length _ _)
  obtain ⟨hmagic, hsequence, hhead, haudits, hdigest⟩ := field_signedMeta hs s
  have hseq : UInt64.ofNat (ofLe (toLe 8 s.sequence.toNat)) = s.sequence := by
    rw [ofLe_toLe_of_lt s.sequence.toNat_lt]
    exact UInt64.ofNat_toNat
  have hcnt : ofLe (toLe 8 s.auditCount) = s.auditCount := by
    refine ofLe_toLe_of_lt ?_
    unfold u64Max at hcount
    omega
  rw [readSnapshot, if_neg (by omega), dif_neg (by omega)]
  simp only [hpayload, hsigned, hmac, hmagic, hsequence, hhead, haudits, hdigest, hseq, hcnt, ne_eq,
    not_true_eq_false, if_false]

end HypeLlm.Store
