import HypeLlm.Crypto.Digests
import HypeLlm.Store.Frame

/-!
# The frame codec

* `decode_encoded` — decoding an encoded frame gives it back, whatever follows;
* `decode_take_encoded` — every proper beginning of an encoded frame is incomplete;
* `decode_append` — an answer other than incomplete does not change when bytes are appended;
* `decode_mac` — a protected frame is returned only with the code of its header and payload.

**`frame_codec`** puts them together.  All rest on two facts: decoding looks at the first 24 bytes
(`decode_eq`), and a header that was written reads back (`readHeader_headerBytes`).
-/

namespace HypeLlm.Store

open HypeLlm.Bytes List

/-! ### The header -/

@[simp] theorem length_headerBytes (kind : RecordKind) (sequence : UInt64) (len : ℕ) :
    (headerBytes kind sequence len).length = headerLen := by
  simp [headerBytes, magic, headerLen]

/-- The header that `headerBytes` writes. -/
def Header.of (kind : RecordKind) (sequence : UInt64) (len : ℕ) : Header :=
  ⟨kind, kind.isProtected, sequence, len⟩

theorem field_headerBytes (kind : RecordKind) (sequence : UInt64) (len : ℕ) :
    field (headerBytes kind sequence len) 0 4 = magic ∧
      field (headerBytes kind sequence len) 4 2 = toLe 2 formatVersion ∧
      field (headerBytes kind sequence len) 6 2 = toLe 2 kind.asU16.toNat ∧
      field (headerBytes kind sequence len) 8 2 =
        toLe 2 (if kind.isProtected then flagProtected else 0) ∧
      field (headerBytes kind sequence len) 12 8 = toLe 8 sequence.toNat ∧
      field (headerBytes kind sequence len) 20 4 = toLe 4 len := by
  have hmagic : magic.length = 4 := rfl
  refine ⟨?_, ?_, ?_, ?_, ?_, ?_⟩ <;>
    simp [field, headerBytes, drop_append, drop_of_length_le, take_of_length_le, hmagic]

theorem readHeader_headerBytes {kind : RecordKind} (hkind : kind.Canonical) (sequence : UInt64)
    {len : ℕ} (hlen : len ≤ maxPayloadLen) :
    readHeader (headerBytes kind sequence len) = .ok (Header.of kind sequence len) := by
  obtain ⟨hmagic, hversion, hkindAt, hflags, hsequence, hlenAt⟩ := field_headerBytes kind sequence len
  have hversionIs : ofLe (toLe 2 formatVersion) = formatVersion := by decide
  have hkindIs : RecordKind.fromU16 (UInt16.ofNat (ofLe (toLe 2 kind.asU16.toNat))) = kind := by
    rw [ofLe_toLe_of_lt kind.asU16.toNat_lt, UInt16.ofNat_toNat, RecordKind.fromU16_asU16 hkind]
  have hflagsIs : (ofLe (toLe 2 (if kind.isProtected then flagProtected else 0)) &&& flagProtected
      != 0) = kind.isProtected := by
    cases kind.isProtected <;> decide
  have hsequenceIs : UInt64.ofNat (ofLe (toLe 8 sequence.toNat)) = sequence := by
    rw [ofLe_toLe_of_lt sequence.toNat_lt, UInt64.ofNat_toNat]
  have hlenIs : ofLe (toLe 4 len) = len :=
    ofLe_toLe_of_lt (lt_of_le_of_lt hlen (by decide))
  simp only [readHeader, hmagic, hversion, hkindAt, hflags, hsequence, hlenAt, hversionIs, hkindIs,
    hflagsIs, hsequenceIs, hlenIs, ne_eq, not_true, if_false, not_lt.2 hlen]
  rfl

/-- What a header declares is within bounds, and its flag agrees with its kind. -/
theorem readHeader_ok {bytes : List UInt8} {h : Header} (hread : readHeader bytes = .ok h) :
    h.len ≤ maxPayloadLen ∧ h.isProtected = h.kind.isProtected := by
  unfold readHeader at hread
  dsimp only at hread
  split at hread
  · cases hread
  split at hread
  · cases hread
  split at hread
  · cases hread
  rename_i hlen
  split at hread
  · cases hread
  rename_i hflag
  cases hread
  exact ⟨not_lt.1 hlen, (not_not.1 hflag).symm⟩

/-! ### Decoding looks at the header first -/

variable (d : Digests)

theorem decode_short {buf : List UInt8} (macKey : List UInt8) (h : buf.length < headerLen) :
    decode d buf macKey = .error .incomplete := by
  simp only [decode, if_pos h]

/-- Decoding a buffer that holds a header. -/
theorem decode_eq {buf : List UInt8} (macKey : List UInt8) (h : headerLen ≤ buf.length) :
    decode d buf macKey = match readHeader (buf.take headerLen) with
      | .error e => .error e
      | .ok header => if buf.length < header.total then .error .incomplete
          else verify d buf macKey header := by
  rw [decode]
  exact if_neg (not_lt.2 h)

theorem readHeader_ne_incomplete (bytes : List UInt8) :
    readHeader bytes ≠ .error .incomplete := by
  intro h
  unfold readHeader at h
  dsimp only at h
  split at h
  · cases h
  split at h
  · cases h
  split at h
  · cases h
  split at h
  · split at h <;> cases h
  · cases h

theorem headerLen_le_total (h : Header) : headerLen ≤ h.total := by
  unfold Header.total Header.crcEnd
  omega

theorem verify_ne_incomplete (buf macKey : List UInt8) (h : Header) :
    verify d buf macKey h ≠ .error .incomplete := by
  intro hverify
  unfold verify at hverify
  split at hverify
  · cases hverify
  split at hverify <;> cases hverify

/-- A buffer is incomplete when it is shorter than a header, or than what its header declares. -/
theorem decode_incomplete_iff {buf macKey : List UInt8} :
    decode d buf macKey = .error .incomplete ↔ buf.length < headerLen ∨
      ∃ h, readHeader (buf.take headerLen) = .ok h ∧ buf.length < h.total := by
  by_cases hshort : buf.length < headerLen
  · simp [decode_short d macKey hshort, hshort]
  · rw [decode_eq d macKey (not_lt.1 hshort)]
    cases hread : readHeader (buf.take headerLen) with
    | error e =>
      have hne : e ≠ .incomplete := by
        rintro rfl
        exact readHeader_ne_incomplete _ hread
      simp [hshort, hne]
    | ok h =>
      by_cases htotal : buf.length < h.total
      · simp [htotal, hshort]
      · simp [htotal, hshort, verify_ne_incomplete]

/-! ### Bytes after the frame -/

theorem field_append_right {buf : List UInt8} (rest : List UInt8) (offset width : ℕ)
    (h : offset + width ≤ buf.length) : field (buf ++ rest) offset width = field buf offset width := by
  rw [field, field, drop_append_of_le_length (by omega), take_append_of_le_length]
  rw [length_drop]
  omega

theorem verify_append {buf : List UInt8} (macKey rest : List UInt8) {h : Header}
    (hlen : h.total ≤ buf.length) : verify d (buf ++ rest) macKey h = verify d buf macKey h := by
  have htotal : headerLen + h.len + crcLen + (if h.isProtected then macLen else 0) ≤ buf.length := hlen
  unfold verify
  rw [take_append_of_le_length (by omega), field_append_right rest _ _ (by omega),
    field_append_right rest headerLen h.len (by omega),
    take_append_of_le_length (i := h.crcEnd) (by unfold Header.crcEnd; omega)]
  cases hp : h.isProtected with
  | false => simp
  | true =>
    rw [hp, if_pos rfl] at htotal
    rw [field_append_right rest h.crcEnd _ (by unfold Header.crcEnd; omega)]

/-- **An answer other than incomplete is final.** -/
theorem decode_append {buf macKey : List UInt8} (rest : List UInt8)
    (h : decode d buf macKey ≠ .error .incomplete) :
    decode d (buf ++ rest) macKey = decode d buf macKey := by
  have hnot := mt (decode_incomplete_iff d).2 h
  rw [not_or, not_exists] at hnot
  obtain ⟨hlen, hheader⟩ := hnot
  have hlen : headerLen ≤ buf.length := not_lt.1 hlen
  rw [decode_eq d macKey hlen, decode_eq d macKey (by rw [length_append]; omega),
    take_append_of_le_length hlen]
  cases hread : readHeader (buf.take headerLen) with
  | error e => rfl
  | ok header =>
    have htotal : header.total ≤ buf.length := by
      by_contra hshort
      exact hheader header ⟨hread, not_le.1 hshort⟩
    dsimp only
    rw [if_neg (not_lt.2 htotal), if_neg (by rw [length_append]; omega),
      verify_append d macKey rest htotal]

/-! ### Round trip -/

/-- The bytes of a frame. -/
def frameBytes (kind : RecordKind) (sequence : UInt64) (payload macKey : List UInt8) : List UInt8 :=
  let covered := coveredBytes d kind sequence payload
  covered ++ if kind.isProtected then d.hmacSha256 macKey covered else []

theorem encode_eq {kind : RecordKind} {sequence : UInt64} {payload : List UInt8}
    (macKey : List UInt8) (h : payload.length ≤ maxPayloadLen) :
    encode d kind sequence payload macKey = .ok (frameBytes d kind sequence payload macKey) := by
  simp only [encode, if_neg (not_lt.2 h)]
  rfl

@[simp] theorem length_coveredBytes (kind : RecordKind) (sequence : UInt64) (payload : List UInt8) :
    (coveredBytes d kind sequence payload).length = headerLen + payload.length + crcLen := by
  simp [coveredBytes, Nat.add_assoc]

theorem length_frameBytes (kind : RecordKind) (sequence : UInt64) (payload macKey : List UInt8) :
    (frameBytes d kind sequence payload macKey).length =
      (Header.of kind sequence payload.length).total := by
  cases hp : kind.isProtected <;>
    simp [frameBytes, Header.of, Header.total, Header.crcEnd, hp, d.hmacSha256_length]

theorem take_frameBytes (kind : RecordKind) (sequence : UInt64) (payload macKey : List UInt8) :
    (frameBytes d kind sequence payload macKey).take headerLen =
      headerBytes kind sequence payload.length := by
  simp only [frameBytes, coveredBytes, append_assoc]
  rw [take_append_of_le_length (by simp), take_of_length_le (by simp)]

section

variable {kind : RecordKind} {sequence : UInt64} {payload : List UInt8} (macKey : List UInt8)

/-- **Every proper beginning of a frame is incomplete.** -/
theorem decode_take_encoded (hkind : kind.Canonical) (hlen : payload.length ≤ maxPayloadLen) {n : ℕ}
    (hn : n < (frameBytes d kind sequence payload macKey).length) :
    decode d ((frameBytes d kind sequence payload macKey).take n) macKey = .error .incomplete := by
  rw [decode_incomplete_iff]
  by_cases hshort : n < headerLen
  · left
    rw [length_take]
    omega
  · right
    refine ⟨Header.of kind sequence payload.length, ?_, ?_⟩
    · rw [take_take, min_eq_left (not_lt.1 hshort), take_frameBytes,
        readHeader_headerBytes hkind sequence hlen]
    · rw [length_take, ← length_frameBytes d kind sequence payload macKey]
      omega

theorem verify_frameBytes :
    verify d (frameBytes d kind sequence payload macKey) macKey
        (Header.of kind sequence payload.length) =
      .ok ⟨⟨kind, sequence, payload, kind.isProtected⟩,
        (Header.of kind sequence payload.length).total⟩ := by
  let body := headerBytes kind sequence payload.length ++ payload
  let mac := if kind.isProtected then
    d.hmacSha256 macKey (coveredBytes d kind sequence payload) else []
  have hbody : body.length = headerLen + payload.length := by simp [body]
  have hcovered : (coveredBytes d kind sequence payload).length =
      (Header.of kind sequence payload.length).crcEnd := length_coveredBytes d kind sequence payload
  have hbytes : frameBytes d kind sequence payload macKey =
      body ++ (toLe crcLen (d.crc32 body).toNat ++ mac) := by
    simp only [frameBytes, coveredBytes, append_assoc, body, mac]
  have hcrc : field (frameBytes d kind sequence payload macKey) (headerLen + payload.length) crcLen =
      toLe crcLen (d.crc32 body).toNat := by
    rw [hbytes]
    exact field_append mac hbody (length_toLe _ _)
  have hpayload : field (frameBytes d kind sequence payload macKey) headerLen payload.length =
      payload := by
    rw [hbytes]
    simp only [body, append_assoc]
    exact field_append _ (length_headerBytes _ _ _) rfl
  have htakeBody : (frameBytes d kind sequence payload macKey).take (headerLen + payload.length) =
      body := by
    rw [hbytes, take_append_of_le_length hbody.ge, take_of_length_le hbody.le]
  have htakeCovered : (frameBytes d kind sequence payload macKey).take
      (Header.of kind sequence payload.length).crcEnd = coveredBytes d kind sequence payload := by
    rw [frameBytes, take_append_of_le_length hcovered.ge, take_of_length_le hcovered.le]
  have hcrcIs : ofLe (toLe crcLen (d.crc32 body).toNat) = (d.crc32 body).toNat :=
    ofLe_toLe_of_lt (d.crc32 body).toNat_lt
  have hmac : kind.isProtected = true →
      field (frameBytes d kind sequence payload macKey)
        (Header.of kind sequence payload.length).crcEnd macLen =
          d.hmacSha256 macKey (coveredBytes d kind sequence payload) := by
    intro hp
    have hframe : frameBytes d kind sequence payload macKey = coveredBytes d kind sequence payload ++
        (d.hmacSha256 macKey (coveredBytes d kind sequence payload) ++ []) := by
      simp only [frameBytes, hp, if_true, append_nil]
    rw [hframe]
    exact field_append [] hcovered (d.hmacSha256_length _ _)
  have hlenIs : (Header.of kind sequence payload.length).len = payload.length := rfl
  have hprotectedIs : (Header.of kind sequence payload.length).isProtected = kind.isProtected := rfl
  unfold verify
  rw [hlenIs, hprotectedIs, htakeBody, hcrc, hcrcIs, htakeCovered, hpayload]
  rw [if_neg (by simp), if_neg]
  · rfl
  · rintro ⟨hp, hne⟩
    exact hne (hmac hp).symm

/-- **An encoded frame decodes to itself**, whatever follows it. -/
theorem decode_encoded (hkind : kind.Canonical) (hlen : payload.length ≤ maxPayloadLen)
    (rest : List UInt8) :
    decode d (frameBytes d kind sequence payload macKey ++ rest) macKey =
      .ok ⟨⟨kind, sequence, payload, kind.isProtected⟩,
        (frameBytes d kind sequence payload macKey).length⟩ := by
  have hwhole : decode d (frameBytes d kind sequence payload macKey) macKey =
      .ok ⟨⟨kind, sequence, payload, kind.isProtected⟩,
        (frameBytes d kind sequence payload macKey).length⟩ := by
    have htotal := length_frameBytes d kind sequence payload macKey
    rw [decode_eq d macKey (by rw [htotal]; exact headerLen_le_total _), take_frameBytes,
      readHeader_headerBytes hkind sequence hlen]
    dsimp only
    rw [if_neg (by omega), verify_frameBytes d macKey, htotal]
  rw [decode_append d rest (by rw [hwhole]; simp), hwhole]

end

/-! ### What a decoded frame guarantees -/

/-- The buffer behind a frame that was returned. -/
theorem decode_ok {buf macKey : List UInt8} {f : DecodedFrame} (h : decode d buf macKey = .ok f) :
    ∃ header, readHeader (buf.take headerLen) = .ok header ∧ header.total ≤ buf.length ∧
      verify d buf macKey header = .ok f := by
  by_cases hshort : buf.length < headerLen
  · rw [decode_short d macKey hshort] at h
    cases h
  rw [decode_eq d macKey (not_lt.1 hshort)] at h
  cases hread : readHeader (buf.take headerLen) with
  | error e =>
    rw [hread] at h
    cases h
  | ok header =>
    rw [hread] at h
    dsimp only at h
    split at h
    · cases h
    · rename_i htotal
      exact ⟨header, rfl, not_lt.1 htotal, h⟩

/-- A returned frame is at least a header, and no longer than the buffer. -/
theorem decode_length {buf macKey : List UInt8} {f : DecodedFrame} (h : decode d buf macKey = .ok f) :
    headerLen ≤ f.length ∧ f.length ≤ buf.length := by
  obtain ⟨header, -, htotal, hverify⟩ := decode_ok d h
  have hlength : f.length = header.total := by
    unfold verify at hverify
    split at hverify
    · cases hverify
    split at hverify
    · cases hverify
    · cases hverify
      rfl
  rw [hlength]
  exact ⟨headerLen_le_total header, htotal⟩

/-- The largest a single encoded frame can be. -/
def maxFrameBytes : ℕ := headerLen + maxPayloadLen + crcLen + macLen

/-- A buffer as long as the largest frame is decided. -/
theorem decode_of_maxFrameBytes {buf : List UInt8} (macKey : List UInt8)
    (h : maxFrameBytes ≤ buf.length) : decode d buf macKey ≠ .error .incomplete := by
  intro hincomplete
  rcases (decode_incomplete_iff d).1 hincomplete with hshort | ⟨header, hread, hshort⟩
  · unfold maxFrameBytes at h
    omega
  · have hlen := (readHeader_ok hread).1
    have htotal : header.total ≤ maxFrameBytes := by
      unfold Header.total Header.crcEnd maxFrameBytes
      split <;> omega
    omega

/-- **A protected frame carries the code of its header and payload.** -/
theorem decode_mac {buf macKey : List UInt8} {f : DecodedFrame} (h : decode d buf macKey = .ok f)
    (hp : f.frame.kind.isProtected = true) :
    let body := buf.take headerLen ++ f.frame.payload
    field buf (body.length + crcLen) macLen =
      d.hmacSha256 macKey (body ++ toLe crcLen (d.crc32 body).toNat) := by
  obtain ⟨header, hread, htotal, hverify⟩ := decode_ok d h
  obtain ⟨-, hflag⟩ := readHeader_ok hread
  unfold verify at hverify
  split at hverify
  · cases hverify
  rename_i hcrc
  split at hverify
  · cases hverify
  rename_i hmac
  cases hverify
  rw [hflag] at hmac
  have hcode := not_not.1 fun hne => hmac ⟨hp, hne⟩
  unfold Header.total Header.crcEnd at htotal
  have hbody : buf.take headerLen ++ field buf headerLen header.len =
      buf.take (headerLen + header.len) := take_add.symm
  have hcrcBytes : toLe crcLen (d.crc32 (buf.take (headerLen + header.len))).toNat =
      field buf (headerLen + header.len) crcLen := by
    have hwidth : (field buf (headerLen + header.len) crcLen).length = crcLen := by
      rw [field, length_take, length_drop]
      omega
    have hback := toLe_ofLe (field buf (headerLen + header.len) crcLen)
    rw [hwidth] at hback
    rw [not_not.1 hcrc, hback]
  intro body
  have hlen : body.length = headerLen + header.len := by
    simp only [body, hbody, length_take]
    omega
  have hcoveredIs : body ++ toLe crcLen (d.crc32 body).toNat = buf.take header.crcEnd := by
    simp only [body, hbody, hcrcBytes]
    exact take_add.symm
  rw [hlen, hcoveredIs, hcode]
  rfl

/-- **The frame codec.** -/
theorem frame_codec (d : Digests) :
    (∀ (kind : RecordKind) (sequence : UInt64) (payload macKey : List UInt8), kind.Canonical →
        payload.length ≤ maxPayloadLen →
        ∃ bytes, encode d kind sequence payload macKey = .ok bytes ∧
          (∀ rest, decode d (bytes ++ rest) macKey =
            .ok ⟨⟨kind, sequence, payload, kind.isProtected⟩, bytes.length⟩) ∧
          ∀ n < bytes.length, decode d (bytes.take n) macKey = .error .incomplete) ∧
      (∀ buf macKey rest : List UInt8, decode d buf macKey ≠ .error .incomplete →
        decode d (buf ++ rest) macKey = decode d buf macKey) ∧
      ∀ (buf macKey : List UInt8) (f : DecodedFrame), decode d buf macKey = .ok f →
        f.frame.kind.isProtected = true →
        let body := buf.take headerLen ++ f.frame.payload
        field buf (body.length + crcLen) macLen =
          d.hmacSha256 macKey (body ++ toLe crcLen (d.crc32 body).toNat) := by
  refine ⟨?_, ?_, ?_⟩
  · intro kind sequence payload macKey hkind hlen
    refine ⟨frameBytes d kind sequence payload macKey, encode_eq d macKey hlen, ?_, ?_⟩
    · exact decode_encoded d macKey hkind hlen
    · intro n hn
      exact decode_take_encoded d macKey hkind hlen hn
  · intro buf macKey rest h
    exact decode_append d rest h
  · intro buf macKey f h hp
    exact decode_mac d h hp

/-- The digests the store uses. -/
def storeDigests : Digests := ⟨Crypto.crc32, Crypto.hmacSha256, Crypto.length_hmacSha256⟩

/-- An audit event of three bytes, written and read back with more bytes behind it. -/
theorem audit_event_reads_back :
    ∃ bytes, encode storeDigests .auditEvent 42 [1, 2, 3] [7] = .ok bytes ∧
      decode storeDigests (bytes ++ [9]) [7] =
        .ok ⟨⟨.auditEvent, 42, [1, 2, 3], true⟩, bytes.length⟩ := by
  obtain ⟨bytes, hbytes, hdecode, -⟩ := (frame_codec storeDigests).1 .auditEvent 42 [1, 2, 3] [7]
    (by decide) (by decide)
  exact ⟨bytes, hbytes, hdecode [9]⟩

end HypeLlm.Store
