import HypeLlm.Fleet.Snapshot
import HypeLlm.Json.RoundTrip

/-!
# Checksum records

The checksum that is kept of an artifact stands in the log as a small JSON object.  What is read back is
what was written, where identifiers are valid: their letters need no escapes, and so the limits of the
reader are kept.

* `encodeRecord`, `decodeRecord` — a record and its payload;
* **`decode_encode`** — what is written is read back.
-/

namespace HypeLlm.Fleet

open HypeLlm.Json HypeLlm.Results

/-! ### Identifiers -/

/-- The letters of an identifier. -/
def idChar (c : Char) : Bool := c.isAlphanum || c = '.' || c = '_' || c = '-' || c = ':'

def maxIdLen : ℕ := 128

def validId (s : String) : Bool := s.toList ≠ [] && s.toList.length ≤ maxIdLen && s.toList.all idChar

def imageIdPrefix : List Char := ['s', 'h', 'a', '2', '5', '6', ':']

def lowerHex (c : Char) : Bool := c.isDigit || ('a' ≤ c && c ≤ 'f')

/-- The algorithm, and 64 digits in lower case. -/
def validImageId (s : String) : Bool :=
  imageIdPrefix.isPrefixOf s.toList && (s.toList.drop 7).length = 64 && (s.toList.drop 7).all lowerHex

/-! ### Records -/

structure ChecksumRecord where
  artifact : ArtifactId
  imageId : ImageId
  /-- The host it was learned from. -/
  host : HostId
  atMillis : ℕ
  deriving Repr, DecidableEq

structure ChecksumRecord.Valid (r : ChecksumRecord) : Prop where
  artifact : validId r.artifact = true
  imageId : validImageId r.imageId = true
  host : validId r.host = true

def maxRecordBytes : ℕ := 1024

def i64Max : ℕ := 2 ^ 63 - 1

/-- The limits for small payloads, and no more bytes than a record may have. -/
def recordLimits : Limits := ⟨32, 64 * 1024, maxRecordBytes, 10000, 2000, true⟩

variable {F : Type} (floats : FloatText F)

def artifactKey : List Char := "artifact".toList
def imageIdKey : List Char := "image_id".toList
def hostKey : List Char := "host".toList
def atMillisKey : List Char := "at_millis".toList

def recordValue (r : ChecksumRecord) : Value F :=
  .object
    [(artifactKey, .string r.artifact.toList), (imageIdKey, .string r.imageId.toList),
      (hostKey, .string r.host.toList), (atMillisKey, .number (.int (.ofNat (min r.atMillis i64Max))))]

def encodeRecord (r : ChecksumRecord) : List UInt8 := Utf8.encode (toString floats (recordValue r))

/-- A record, where the payload is exactly one. -/
def decodeRecord (payload : List UInt8) : Option ChecksumRecord := do
  let value ← (parse floats recordLimits payload).toOption
  let artifact ← (← value.get artifactKey).asStr
  let imageId ← (← value.get imageIdKey).asStr
  let host ← (← value.get hostKey).asStr
  let atMillis ← (← value.get atMillisKey).asU64
  if validId (.ofList artifact) && validImageId (.ofList imageId) && validId (.ofList host) then
    some ⟨.ofList artifact, .ofList imageId, .ofList host, atMillis⟩
  else none

/-! ### The letters of identifiers -/

theorem toNat_idChar {c : Char} (h : idChar c = true) : 0x20 ≤ c.toNat ∧ c.toNat < 128 := by
  simp only [idChar, Bool.or_eq_true, decide_eq_true_eq] at h
  rcases h with (((h | rfl) | rfl) | rfl) | rfl
  · simp only [Char.isAlphanum, Char.isAlpha, Char.isUpper, Char.isLower, Char.isDigit, Bool.or_eq_true,
      Bool.and_eq_true, decide_eq_true_eq, UInt32.le_iff_toNat_le, ge_iff_le] at h
    have hc : c.toNat = c.val.toNat := rfl
    have hZ : 'Z'.val.toNat = 90 := rfl
    have hz : 'z'.val.toNat = 122 := rfl
    have h9 : '9'.val.toNat = 57 := rfl
    have hA : 'A'.val.toNat = 65 := rfl
    have ha : 'a'.val.toNat = 97 := rfl
    have h0 : '0'.val.toNat = 48 := rfl
    omega
  all_goals exact ⟨by decide, by decide⟩

/-- Such a letter is written as it is. -/
theorem escapeChar_idChar {c : Char} (h : idChar c = true) : escapeChar c = [c] := by
  have hall : ∀ n < 128, idChar (Char.ofNat n) = true → escapeChar (Char.ofNat n) = [Char.ofNat n] := by
    decide +kernel
  have hc := hall c.toNat (toNat_idChar h).2
  rw [Char.ofNat_toNat] at hc
  exact hc h

theorem escape_idChars {cs : List Char} (h : cs.all idChar = true) : escape cs = cs := by
  induction cs with
  | nil => rfl
  | cons c cs ih =>
    rw [List.all_cons, Bool.and_eq_true] at h
    rw [escape, List.flatMap_cons, escapeChar_idChar h.1]
    exact congrArg (c :: ·) (ih h.2)

theorem length_encode_idChars {cs : List Char} (h : cs.all idChar = true) :
    (Utf8.encode cs).length = cs.length := by
  induction cs with
  | nil => rfl
  | cons c cs ih =>
    rw [List.all_cons, Bool.and_eq_true] at h
    rw [Utf8.encode_cons, Utf8.encodeChar_ascii (toNat_idChar h.1).2, List.length_append, ih h.2,
      List.length_singleton, List.length_cons, Nat.add_comm]

/-- Letters of identifiers only, and no more than an identifier has. -/
def Plain (cs : List Char) : Prop := cs.all idChar = true ∧ cs.length ≤ maxIdLen

theorem plain_of_validId {s : String} (h : validId s = true) : Plain s.toList := by
  simp only [validId, Bool.and_eq_true, decide_eq_true_eq] at h
  exact ⟨h.2, h.1.2⟩

theorem plain_of_validImageId {s : String} (h : validImageId s = true) : Plain s.toList := by
  simp only [validImageId, Bool.and_eq_true, decide_eq_true_eq] at h
  obtain ⟨⟨hpre, hlen⟩, hhex⟩ := h
  obtain ⟨rest, hrest⟩ := List.isPrefixOf_iff_prefix.1 hpre
  rw [← hrest] at hlen hhex ⊢
  have hdrop : (imageIdPrefix ++ rest).drop 7 = rest := rfl
  rw [hdrop] at hlen hhex
  constructor
  · rw [List.all_append, Bool.and_eq_true]
    refine ⟨by decide, List.all_eq_true.2 fun c hc => ?_⟩
    have hhexc := List.all_eq_true.1 hhex c hc
    rw [lowerHex, Bool.or_eq_true] at hhexc
    rw [idChar, Char.isAlphanum, Char.isAlpha]
    rcases hhexc with hdigit | hletter
    · simp [hdigit]
    · have hlower : c.isLower = true := by
        rw [Bool.and_eq_true, decide_eq_true_eq, decide_eq_true_eq] at hletter
        have hz : 'f' ≤ 'z' := by decide
        rw [Char.isLower, Bool.and_eq_true, decide_eq_true_eq, decide_eq_true_eq]
        exact ⟨hletter.1, le_trans hletter.2 hz⟩
      simp [hlower]
  · rw [List.length_append, hlen]
    decide

/-- Plain text fits, and takes as many bytes as it has letters. -/
theorem stringFits_of_plain {cs : List Char} (h : Plain cs) : StringFits recordLimits.maxStringBytes cs := by
  have hlen : (Utf8.encode cs).length ≤ recordLimits.maxStringBytes := by
    rw [length_encode_idChars h.1]
    exact le_trans h.2 (by decide)
  refine ⟨hlen, writtenFits_of_length ?_⟩
  rw [escape_idChars h.1]
  exact hlen

/-! ### The payload of a record -/

variable {floats}

theorem length_writeString {cs : List Char} (h : cs.all idChar = true) :
    (Utf8.encode (writeString cs)).length = cs.length + 2 := by
  have hquote : (Utf8.encode ['"']).length = 1 := by decide
  rw [writeString, escape_idChars h, Utf8.encode_append, Utf8.encode_append, List.length_append,
    List.length_append, length_encode_idChars h, hquote]
  omega

theorem length_encode_digits {ds : List ℕ} (h : ∀ d ∈ ds, d < 10) :
    (Utf8.encode (ds.map Decimal.digitChar)).length = ds.length := by
  induction ds with
  | nil => rfl
  | cons d ds ih =>
    have hd : (Decimal.digitChar d).toNat < 128 := by
      have hlt := h d List.mem_cons_self
      rw [Decimal.toNat_digitChar hlt]
      omega
    rw [List.map_cons, Utf8.encode_cons, Utf8.encodeChar_ascii hd, List.length_append,
      ih fun d hd => h d (List.mem_cons_of_mem _ hd), List.length_singleton, List.length_cons, Nat.add_comm]

/-- A number that is not negative has 19 digits at most. -/
theorem length_itoa {n : ℕ} (h : n ≤ i64Max) : (Utf8.encode (itoa (.ofNat n))).length ≤ 19 := by
  have hn : (Int64.ofNat n).toInt = n := Int64.toInt_ofNat_of_lt (by rw [i64Max] at h; omega)
  rw [itoa, hn]
  split
  · decide
  · rw [if_neg (by omega), List.nil_append, Int.natAbs_natCast, length_encode_digits fun d => Decimal.lt_of_mem_digits]
    refine Decimal.length_digits_le (lt_of_le_of_lt h ?_)
    decide

/-- A payload is much smaller than a record may be. -/
theorem length_encodeRecord {r : ChecksumRecord} (h : r.Valid) :
    (encodeRecord floats r).length ≤ maxRecordBytes := by
  have hartifact := plain_of_validId h.artifact
  have himage := plain_of_validImageId h.imageId
  have hhost := plain_of_validId h.host
  have hmillis := length_itoa (n := min r.atMillis i64Max) (Nat.min_le_right ..)
  have hopen : (Utf8.encode ['\x7b']).length = 1 := by decide
  have hclose : (Utf8.encode ['\x7d']).length = 1 := by decide
  have hcomma : (Utf8.encode [',']).length = 1 := by decide
  have hcolon : (Utf8.encode [':']).length = 1 := by decide
  have hkey : ∀ key : List Char, key.all idChar = true → key.length ≤ 9 →
      (Utf8.encode (writeString key)).length ≤ 11 := by
    intro key hchars hlen
    rw [length_writeString hchars]
    omega
  have hkeyA := hkey artifactKey (by decide) (by decide)
  have hkeyI := hkey imageIdKey (by decide) (by decide)
  have hkeyH := hkey hostKey (by decide) (by decide)
  have hkeyM := hkey atMillisKey (by decide) (by decide)
  have hbytes : (encodeRecord floats r).length =
      (Utf8.encode (writeString artifactKey)).length + (Utf8.encode (writeString imageIdKey)).length +
        (Utf8.encode (writeString hostKey)).length + (Utf8.encode (writeString atMillisKey)).length +
        (r.artifact.toList.length + 2) + (r.imageId.toList.length + 2) + (r.host.toList.length + 2) +
        (Utf8.encode (itoa (.ofNat (min r.atMillis i64Max)))).length + 9 := by
    simp only [encodeRecord, Json.toString, recordValue, writeValue, writeEntries, writeNumber,
      Utf8.encode_append, List.length_append, length_writeString hartifact.1, length_writeString himage.1,
      length_writeString hhost.1, Nat.lt_irrefl, Nat.succ_pos, if_true, if_false, Utf8.encode_nil,
      List.length_nil, hopen, hclose, hcomma, hcolon]
    omega
  rw [hbytes, maxRecordBytes]
  have h1 := hartifact.2
  have h2 := himage.2
  have h3 := hhost.2
  rw [maxIdLen] at h1 h2 h3
  omega

theorem fits_recordValue {r : ChecksumRecord} (h : r.Valid) :
    Fits floats recordLimits (StringFits recordLimits.maxStringBytes) recordLimits.maxDepth (recordValue r) := by
  have hkeys : ∀ key ∈ [artifactKey, imageIdKey, hostKey, atMillisKey], Plain key := by
    have hplain : ∀ key ∈ [artifactKey, imageIdKey, hostKey, atMillisKey],
        key.all idChar = true ∧ key.length ≤ maxIdLen := by decide
    exact hplain
  have hnodup : [artifactKey, imageIdKey, hostKey, atMillisKey].Nodup := by decide
  have hcount : 4 ≤ recordLimits.maxObjectEntries := by decide
  refine .object hcount (fun _ => hnodup) (fun e he => ?_) fun e he => ?_
  · refine stringFits_of_plain (hkeys e.1 ?_)
    exact List.mem_map_of_mem he
  · fin_cases he
    · exact .string (stringFits_of_plain (plain_of_validId h.artifact))
    · exact .string (stringFits_of_plain (plain_of_validImageId h.imageId))
    · exact .string (stringFits_of_plain (plain_of_validId h.host))
    · exact .int _

theorem printable_recordValue (r : ChecksumRecord) : (recordValue r).Printable floats := by
  rintro f hinside
  cases hinside with
  | member he hin =>
    fin_cases he <;> cases hin

theorem parse_encodeRecord {r : ChecksumRecord} (h : r.Valid) :
    parse floats recordLimits (encodeRecord floats r) = .ok (recordValue r) :=
  (parse_gives (printable_recordValue r)).eq_ok ⟨length_encodeRecord h, fits_recordValue h⟩

/-- **What is written is read back**, with the time up to what the reader knows. -/
theorem decode_encode {r : ChecksumRecord} (h : r.Valid) :
    decodeRecord floats (encodeRecord floats r) = some { r with atMillis := min r.atMillis i64Max } := by
  have hartifact : (recordValue r : Value F).get artifactKey = some (.string r.artifact.toList) := rfl
  have himage : (recordValue r : Value F).get imageIdKey = some (.string r.imageId.toList) := rfl
  have hhost : (recordValue r : Value F).get hostKey = some (.string r.host.toList) := rfl
  have hmillis : (recordValue r : Value F).get atMillisKey =
    some (.number (.int (.ofNat (min r.atMillis i64Max)))) := rfl
  have hint : (Int64.ofNat (min r.atMillis i64Max)).toInt = (min r.atMillis i64Max : ℕ) := by
    refine Int64.toInt_ofNat_of_lt (lt_of_le_of_lt (Nat.min_le_right ..) ?_)
    decide
  have hvalid : (validId r.artifact && validImageId r.imageId && validId r.host) = true := by
    rw [h.artifact, h.imageId, h.host]
    rfl
  rw [decodeRecord, parse_encodeRecord h]
  simp only [Except.toOption, Option.bind_eq_bind, Option.bind_some, hartifact, himage, hhost, hmillis,
    Value.asStr, Value.asU64, hint, Int.natCast_nonneg, if_true, Int.toNat_natCast, String.ofList_toList, hvalid]

end HypeLlm.Fleet
