import HypeLlm.Auth.KeyPayloads
import HypeLlm.Crypto.Base64
import HypeLlm.Fleet.Enrollment
import HypeLlm.Http.Message
import HypeLlm.Net.AddressText

/-!
# What a host reports of itself

A registration comes as JSON from a machine that nobody trusts yet.  Every field is checked or narrowed,
and of a key only the key is kept.  The record of it is read back by the same checks.

* `parseRegistration_valid` — what is accepted is in the form that the checks leave it in (`Registration.Valid`);
* `sshEd25519Line_line`, `deviceKeyPem_pem` — a key is read back as it is written;
* **`parseRegistration_value`** — and so is all that was accepted;
* `Registration.Valid.sshUser_plain`, `dataDir_plain`, `hostKey_line` — there is no text in it that means
  something to a shell or to a file of keys.
-/

namespace HypeLlm.Fleet

open HypeLlm.Json HypeLlm.Net HypeLlm.Crypto List
open HypeLlm.Auth.Stored (parseAddress asStr_eq_some_iff asU64_eq_some_iff)
open HypeLlm.Results (bind_eq_ok check_eq_ok)

variable {F : Type}

/-! ### Limits -/

/-- Accelerators that one registration may report. -/
def maxGpus : ℕ := 16
def maxDataDir : ℕ := 256
def maxHostname : ℕ := 64
def maxGpuName : ℕ := 64
def maxSshUser : ℕ := 32
def maxKitVersion : ℕ := 32

def byteLen (text : List Char) : ℕ := (Utf8.encode text).length

/-! ### Keys -/

/-- A control character. -/
def isControl (c : Char) : Bool := decide (c.toNat < 0x20) || decide (0x7F ≤ c.toNat ∧ c.toNat ≤ 0x9F)

def keyName : List Char := "ssh-ed25519".toList

/-- What comes before the key: the name of the algorithm and the length, each after its own length. -/
def blobStart : List UInt8 := [0, 0, 0, 11] ++ Utf8.encode keyName ++ [0, 0, 0, 32]

def sshEd25519BlobLen : ℕ := 4 + 11 + 4 + 32

/-- Some bytes that were decoded and are a key after a fixed start. -/
def keyBytes (start : List UInt8) (length : ℕ) (encoded : List Char) : Option (List UInt8) :=
  match Base64.decode (Utf8.encode encoded) .standard .required length with
  | .error _ => none
  | .ok bytes => if bytes.length = length ∧ start <+: bytes then some bytes else none

/-- The name, the key and what the key's holder wrote after it, which is dropped. -/
def sshEd25519Line (raw : List Char) : Option SshEd25519Key :=
  if 512 < byteLen raw ∨ raw.any isControl then none
  else
    match (raw.splitOn ' ').filter (· ≠ []) with
    | name :: encoded :: _ =>
      if name ≠ keyName then none else (keyBytes blobStart sshEd25519BlobLen encoded).map SshEd25519Key.mk
    | _ => none

def SshEd25519Key.line (key : SshEd25519Key) : List Char := keyName ++ ' ' :: Base64.encodeStd key.blob

/-- The form in which an administrator compares keys. -/
def fingerprint (bytes : List UInt8) : List Char :=
  "SHA256:".toList ++ Base64.encode .standard .forbidden (sha256 bytes)

/-- The DER prefix of an Ed25519 public key. -/
def ed25519SpkiStart : List UInt8 :=
  [0x30, 0x2a, 0x30, 0x05, 0x06, 0x03, 0x2b, 0x65, 0x70, 0x03, 0x21, 0x00]

def pemBegin : List Char := "-----BEGIN PUBLIC KEY-----".toList
def pemEnd : List Char := "-----END PUBLIC KEY-----".toList

def DeviceKey.pem (key : DeviceKey) : List Char :=
  pemBegin ++ '\n' :: (Base64.encodeStd key.der ++ '\n' :: (pemEnd ++ ['\n']))

/-- A text without what it starts with. -/
def stripStart (start text : List Char) : Option (List Char) :=
  if start <+: text then some (text.drop start.length) else none

/-- A text without what it ends in. -/
def stripEnd (ending text : List Char) : Option (List Char) :=
  if ending <:+ text then some (text.take (text.length - ending.length)) else none

/-- One key between its boundaries, with line ends anywhere. -/
def deviceKeyPem (raw : List Char) : Option DeviceKey :=
  if 512 < byteLen raw then none
  else do
    let body ← stripEnd pemEnd (← stripStart pemBegin (Http.trim raw))
    let der ← keyBytes ed25519SpkiStart (ed25519SpkiStart.length + 32) (body.filter fun c => c ≠ '\n' && c ≠ '\r')
    return ⟨der⟩

/-! ### Fields -/

/-- The field that was refused. -/
structure ReportError where
  field : String
  deriving Repr, DecidableEq

def alphanumeric (n : ℕ) : Bool :=
  decide (97 ≤ n ∧ n ≤ 122) || decide (65 ≤ n ∧ n ≤ 90) || decide (48 ≤ n ∧ n ≤ 57)

/-- Characters that may be displayed. -/
def displayable (c : Char) : Bool := alphanumeric c.toNat || ['.', '_', '-', ' ', '(', ')'].contains c

/-- A text that may be displayed: its first characters, with an underscore for what may not. -/
def narrow (raw : List Char) (max : ℕ) : List Char :=
  (raw.take max).map fun c => if displayable c then c else '_'

/-- Lowercase letters, digits, `_`, `-` and `.`. -/
def userByte (b : UInt8) : Bool :=
  decide (97 ≤ b ∧ b ≤ 122) || decide (48 ≤ b ∧ b ≤ 57) || b = 95 || b = 45 || b = 46

def isSshUser (raw : List Char) : Bool :=
  raw ≠ [] && byteLen raw ≤ maxSshUser && raw.head? ≠ some '-' && (Utf8.encode raw).all userByte

/-- Letters, digits, `/`, `.`, `_` and `-`. -/
def dirByte (b : UInt8) : Bool := alphanumeric b.toNat || b = 47 || b = 46 || b = 95 || b = 45

/-- Absolute, bounded, and in characters that nothing changes on the way. -/
def isDataDir (raw : List Char) : Bool :=
  raw.head? = some '/' && byteLen raw ≤ maxDataDir && (raw.splitOn '/').all (· ≠ ['.', '.']) &&
    (Utf8.encode raw).all dirByte

/-- Letters, digits, `.` and `-`. -/
def kitByte (b : UInt8) : Bool := alphanumeric b.toNat || b = 46 || b = 45

def isKitVersion (raw : List Char) : Bool :=
  raw ≠ [] && byteLen raw ≤ maxKitVersion && (Utf8.encode raw).all kitByte

def Arch.asStr : Arch → String
  | .x86_64 => "x86_64"
  | .aarch64 => "aarch64"

def Arch.parse (s : List Char) : Option Arch :=
  if s = "x86_64".toList ∨ s = "amd64".toList then some .x86_64
  else if s = "aarch64".toList ∨ s = "arm64".toList then some .aarch64
  else none

def isUnspecified : IpAddr → Bool
  | .v4 addr => addr.isUnspecified
  | .v6 addr => addr.isUnspecified

def isMulticast : IpAddr → Bool
  | .v4 addr => addr.isMulticast
  | .v6 addr => addr.isMulticast

/-! ### Reading -/

/-- What a field has to be. -/
def need {α : Type} (field : String) : Option α → Except ReportError α
  | some a => .ok a
  | none => .error ⟨field⟩

def text (body : Value F) (field : String) : Except ReportError (List Char) :=
  need field ((body.get field.toList).bind Value.asStr)

def memory (value : Value F) : Option ℕ := ((value.get "memory_bytes".toList).bind Value.asU64).filter (0 < ·)

/-- An accelerator, unlike those before it. -/
def parseGpu (gpus : List ReportedGpu) (raw : Value F) : Option ReportedGpu := do
  let index ← ((raw.get "index".toList).bind Value.asU64).filter (· < 64)
  if gpus.any (·.index = index) then none
  else
    let name := ((raw.get "name".toList).bind Value.asStr).getD []
    let memoryBytes ← memory raw
    return ⟨index, String.ofList (narrow name maxGpuName), memoryBytes⟩

def gpusLoop : List (Value F) → List ReportedGpu → Except ReportError (List ReportedGpu)
  | [], gpus => .ok gpus
  | raw :: rest, gpus =>
    match parseGpu gpus raw with
    | some gpu => gpusLoop rest (gpus ++ [gpu])
    | none => .error ⟨"gpus"⟩

def gpuLe (a b : ReportedGpu) : Prop := a.index ≤ b.index

instance : DecidableRel gpuLe := fun a b => inferInstanceAs (Decidable (a.index ≤ b.index))

instance : Std.Total gpuLe := ⟨fun a b => Nat.le_total a.index b.index⟩

instance : IsTrans ReportedGpu gpuLe := ⟨fun _ _ _ hab hbc => Nat.le_trans hab hbc⟩

/-- The accelerators as they are listed; none if there is no list. -/
def rawGpus (body : Value F) : Except ReportError (List (Value F)) :=
  match body.get "gpus".toList with
  | none | some .null => .ok []
  | some value => need "gpus" value.asArray

def parseGpus (body : Value F) : Except ReportError (List ReportedGpu) := do
  let raw ← rawGpus body
  if maxGpus < raw.length then .error ⟨"gpus"⟩
  else do
    let gpus ← gpusLoop raw []
    .ok (gpus.insertionSort gpuLe)

def parseRegistration (body : Value F) : Except ReportError Registration := do
  let address ← need "address" (parseAddress (← text body "address"))
  let address ← need "address" (some address |>.filter fun a => !(isUnspecified a || isMulticast a))
  let arch ← need "arch" (Arch.parse (← text body "arch"))
  let hostname ← text body "hostname"
  let sshUser ← need "ssh_user" (some (← text body "ssh_user") |>.filter isSshUser)
  let dataDir ← need "data_dir" (some (← text body "data_dir") |>.filter isDataDir)
  let memoryBytes ← need "memory_bytes" (memory body)
  let hostKey ← need "ssh_host_key" (sshEd25519Line (← text body "ssh_host_key"))
  let deviceKey ← need "device_key" (deviceKeyPem (← text body "device_key"))
  let kitVersion ← need "kit_version" (some (← text body "kit_version") |>.filter isKitVersion)
  let gpus ← parseGpus body
  return {
    address := address
    arch := arch
    hostname := String.ofList (narrow hostname maxHostname)
    sshUser := String.ofList sshUser
    dataDir := String.ofList dataDir
    gpus := gpus
    memoryBytes := memoryBytes
    hostKey := hostKey
    deviceKey := deviceKey
    kitVersion := String.ofList kitVersion }

/-! ### Writing -/

def gpuValue (toFloat : UInt64 → F) (gpu : ReportedGpu) : Value F :=
  .object [("index".toList, .ofU64 toFloat (UInt64.ofNat gpu.index)), ("name".toList, .string gpu.name.toList),
    ("memory_bytes".toList, .ofU64 toFloat (UInt64.ofNat gpu.memoryBytes))]

/-- The keys themselves are only in what is stored. -/
def keyEntries (r : Registration) (full : Bool) : List (List Char × Value F) :=
  if full then [("ssh_host_key".toList, .string r.hostKey.line), ("device_key".toList, .string r.deviceKey.pem)]
  else []

/-- A registration as JSON: as it is stored when `full`, and for the dashboard otherwise. -/
def registrationValue (toFloat : UInt64 → F) (r : Registration) (full : Bool) : Value F :=
  .object ([("address".toList, Value.string r.address.display),
    ("arch".toList, .string r.arch.asStr.toList),
    ("hostname".toList, .string r.hostname.toList),
    ("ssh_user".toList, .string r.sshUser.toList),
    ("data_dir".toList, .string r.dataDir.toList),
    ("memory_bytes".toList, .ofU64 toFloat (UInt64.ofNat r.memoryBytes)),
    ("gpus".toList, .array (r.gpus.map (gpuValue toFloat)))] ++
    keyEntries r full ++
    [("ssh_host_key_fingerprint".toList, Value.string (fingerprint r.hostKey.blob)),
    ("device_key_fingerprint".toList, .string (fingerprint r.deviceKey.der)),
    ("kit_version".toList, .string r.kitVersion.toList)])

/-! ### Keys are read back -/

/-- A key after a fixed start. -/
structure IsKey (start : List UInt8) (length : ℕ) (bytes : List UInt8) : Prop where
  length_eq : bytes.length = length
  start : start <+: bytes

theorem keyBytes_sound {start : List UInt8} {length : ℕ} {encoded : List Char} {bytes : List UInt8}
    (h : keyBytes start length encoded = some bytes) : IsKey start length bytes := by
  unfold keyBytes at h
  split at h
  · cases h
  · split at h
    · rename_i hkey
      cases h
      exact ⟨hkey.1, hkey.2⟩
    · cases h

theorem keyBytes_encodeStd {start : List UInt8} {length : ℕ} {bytes : List UInt8} (h : IsKey start length bytes) :
    keyBytes start length (Base64.encodeStd bytes) = some bytes := by
  rw [keyBytes, Base64.encodeStd, Base64.decode_encode _ _ h.length_eq.le]
  exact if_pos ⟨h.length_eq, h.start⟩

theorem sshEd25519Line_sound {raw : List Char} {key : SshEd25519Key} (h : sshEd25519Line raw = some key) :
    IsKey blobStart sshEd25519BlobLen key.blob := by
  unfold sshEd25519Line at h
  split at h
  · cases h
  · split at h
    · split at h
      · cases h
      · obtain ⟨bytes, hbytes, rfl⟩ := Option.map_eq_some_iff.1 h
        exact keyBytes_sound hbytes
    · cases h

theorem byteLen_append (a b : List Char) : byteLen (a ++ b) = byteLen a + byteLen b := by
  rw [byteLen, Utf8.encode_append, length_append]
  rfl

/-- The text of a key has none of some characters. -/
theorem notMem_encodeStd {data : List UInt8} {c : Char} (hsymbols : ∀ v < 64, Base64.symbolChar v .standard ≠ c)
    (hpad : '=' ≠ c) : c ∉ Base64.encodeStd data := fun hmem => by
  have hne := Base64.forall_mem_encodeStd (q := (· ≠ c)) (fun v hv => decide_eq_true (hsymbols v hv))
    (decide_eq_true hpad) hmem
  exact of_decide_eq_true hne rfl

/-- **The line of a host key is read back.** -/
theorem sshEd25519Line_line {key : SshEd25519Key} (h : IsKey blobStart sshEd25519BlobLen key.blob) :
    sshEd25519Line key.line = some key := by
  have hlen : byteLen key.line ≤ 512 := by
    have hencoded := Base64.length_encode_le .standard .required key.blob
    have hname : byteLen (keyName ++ [' ']) = 12 := by decide
    rw [SshEd25519Key.line, show keyName ++ ' ' :: Base64.encodeStd key.blob =
      (keyName ++ [' ']) ++ Base64.encodeStd key.blob by simp, byteLen_append, hname]
    have hblob : key.blob.length = 51 := h.length_eq
    have hle : byteLen (Base64.encodeStd key.blob) ≤ 4 * key.blob.length := hencoded
    omega
  have hcontrol : key.line.any isControl = false := by
    rw [any_eq_false]
    intro c hc
    obtain hc | hc := mem_append.1 hc
    · have hall : keyName.all fun c => !isControl c := by decide
      simpa using all_eq_true.1 hall c hc
    · obtain rfl | hc := mem_cons.1 hc
      · decide
      · have hall : ∀ v < 64, (!isControl (Base64.symbolChar v .standard)) = true := by decide
        have hplain := Base64.forall_mem_encodeStd (q := fun c => !isControl c) hall (by decide) hc
        simpa using hplain
  have hsplit : key.line.splitOn ' ' = [keyName, Base64.encodeStd key.blob] := by
    have hline : key.line = [' '].intercalate [keyName, Base64.encodeStd key.blob] := by
      simp [SshEd25519Key.line, intercalate]
    rw [hline]
    refine splitOn_intercalate ' ' ?_ (cons_ne_nil _ _)
    intro part hpart
    obtain rfl | hpart := mem_cons.1 hpart
    · decide
    · obtain rfl := mem_singleton.1 hpart
      exact notMem_encodeStd (by decide) (by decide)
  have hne : Base64.encodeStd key.blob ≠ [] := by
    intro hnil
    have hread := keyBytes_encodeStd h
    rw [hnil] at hread
    cases hread
  have hcheck : ¬(512 < byteLen key.line ∨ key.line.any isControl = true) := by
    rw [hcontrol, not_or]
    exact ⟨Nat.not_lt.2 hlen, Bool.false_ne_true⟩
  rw [sshEd25519Line, if_neg hcheck, hsplit, filter_cons_of_pos (by decide), filter_cons_of_pos (by simpa using hne),
    filter_nil]
  show (if _ then _ else _) = _
  rw [if_neg (not_not.2 rfl), keyBytes_encodeStd h]
  rfl

theorem stripStart_append (start rest : List Char) : stripStart start (start ++ rest) = some rest := by
  rw [stripStart, if_pos (prefix_append start rest), drop_left]

theorem stripEnd_append (rest ending : List Char) : stripEnd ending (rest ++ ending) = some rest := by
  rw [stripEnd, if_pos (suffix_append rest ending), length_append, Nat.add_sub_cancel, take_left]

theorem deviceKeyPem_sound {raw : List Char} {key : DeviceKey} (h : deviceKeyPem raw = some key) :
    IsKey ed25519SpkiStart (ed25519SpkiStart.length + 32) key.der := by
  unfold deviceKeyPem at h
  split at h
  · cases h
  · obtain ⟨rest, -, h⟩ := Option.bind_eq_some_iff.1 h
    obtain ⟨body, -, h⟩ := Option.bind_eq_some_iff.1 h
    obtain ⟨der, hder, h⟩ := Option.bind_eq_some_iff.1 h
    cases h
    exact keyBytes_sound hder

/-- **The PEM form of a device key is read back.** -/
theorem deviceKeyPem_pem {key : DeviceKey} (h : IsKey ed25519SpkiStart (ed25519SpkiStart.length + 32) key.der) :
    deviceKeyPem key.pem = some key := by
  have hpem : key.pem = pemBegin ++ (['\n'] ++ Base64.encodeStd key.der ++ ['\n']) ++ pemEnd ++ ['\n'] := by
    simp [DeviceKey.pem]
  have hlen : byteLen key.pem ≤ 512 := by
    have hencoded : byteLen (Base64.encodeStd key.der) ≤ 4 * key.der.length :=
      Base64.length_encode_le .standard .required key.der
    have hder : key.der.length = 44 := h.length_eq
    have hfixed : byteLen pemBegin = 26 ∧ byteLen pemEnd = 24 ∧ byteLen ['\n'] = 1 := by decide
    rw [hpem]
    simp only [byteLen_append, hfixed]
    omega
  have htrim : Http.trim key.pem = pemBegin ++ ((['\n'] ++ Base64.encodeStd key.der ++ ['\n']) ++ pemEnd) := by
    have hbegin : pemBegin = '-' :: pemBegin.tail := by decide
    have hend : pemEnd = pemEnd.dropLast ++ ['-'] := by decide
    have hleft : key.pem.dropWhile Http.isWhiteSpace = key.pem := by
      rw [hpem, hbegin]
      exact dropWhile_cons_of_neg (by decide)
    rw [Http.trim, hleft, hpem, rdropWhile_concat_pos _ _ _ (by decide), hend, ← append_assoc,
      rdropWhile_concat_neg _ _ _ (by decide)]
    simp
  have hbody : (['\n'] ++ Base64.encodeStd key.der ++ ['\n']).filter (fun c => c ≠ '\n' && c ≠ '\r') =
      Base64.encodeStd key.der := by
    have hkeep : ∀ c ∈ Base64.encodeStd key.der, (c ≠ '\n' && c ≠ '\r') = true := fun c hc =>
      Base64.forall_mem_encodeStd (q := fun c => c ≠ '\n' && c ≠ '\r') (by decide) (by decide) hc
    rw [filter_append, filter_append, filter_eq_self.2 hkeep]
    simp
  rw [deviceKeyPem, if_neg (Nat.not_lt.2 hlen), htrim, stripStart_append]
  show (do
    let body ← stripEnd pemEnd ((['\n'] ++ Base64.encodeStd key.der ++ ['\n']) ++ pemEnd)
    let der ← keyBytes ed25519SpkiStart (ed25519SpkiStart.length + 32) (body.filter fun c => c ≠ '\n' && c ≠ '\r')
    return (⟨der⟩ : DeviceKey)) = _
  rw [stripEnd_append]
  show (do
    let der ← keyBytes ed25519SpkiStart (ed25519SpkiStart.length + 32)
      ((['\n'] ++ Base64.encodeStd key.der ++ ['\n']).filter fun c => c ≠ '\n' && c ≠ '\r')
    return (⟨der⟩ : DeviceKey)) = _
  rw [hbody, keyBytes_encodeStd h]
  rfl

/-! ### What is accepted -/

structure ReportedGpu.Valid (gpu : ReportedGpu) : Prop where
  index : gpu.index < 64
  name : narrow gpu.name.toList maxGpuName = gpu.name.toList
  memoryBytes : 0 < gpu.memoryBytes ∧ gpu.memoryBytes < 2 ^ 63

/-- **A registration in the form that the checks leave it in.** -/
structure Registration.Valid (r : Registration) : Prop where
  address : (isUnspecified r.address || isMulticast r.address) = false
  hostname : narrow r.hostname.toList maxHostname = r.hostname.toList
  sshUser : isSshUser r.sshUser.toList = true
  dataDir : isDataDir r.dataDir.toList = true
  memoryBytes : 0 < r.memoryBytes ∧ r.memoryBytes < 2 ^ 63
  hostKey : IsKey blobStart sshEd25519BlobLen r.hostKey.blob
  deviceKey : IsKey ed25519SpkiStart (ed25519SpkiStart.length + 32) r.deviceKey.der
  kitVersion : isKitVersion r.kitVersion.toList = true
  few : r.gpus.length ≤ maxGpus
  sorted : r.gpus.Pairwise gpuLe
  distinct : (r.gpus.map (·.index)).Nodup
  gpus : ∀ gpu ∈ r.gpus, gpu.Valid

/-- What is narrow already is not narrowed. -/
theorem narrow_narrow (raw : List Char) (max : ℕ) : narrow (narrow raw max) max = narrow raw max := by
  have hlen : (narrow raw max).length ≤ max := by
    rw [narrow, length_map, length_take]
    exact Nat.min_le_left _ _
  have hkeep : ∀ c ∈ narrow raw max, displayable c = true := by
    intro c hc
    obtain ⟨d, -, rfl⟩ := mem_map.1 hc
    split
    · assumption
    · decide
  have hsame : narrow (narrow raw max) max =
      ((narrow raw max).take max).map fun c => if displayable c then c else '_' := rfl
  rw [hsame, take_of_length_le hlen]
  exact (map_congr_left fun c hc => if_pos (hkeep c hc)).trans (map_id _)

theorem need_eq_ok {α : Type} {field : String} {o : Option α} {a : α} (h : need field o = .ok a) : o = some a := by
  cases o with
  | none => cases h
  | some b =>
    cases h
    rfl

/-- A field that was checked. -/
theorem need_filter {α : Type} {field : String} {o : Option α} {p : α → Bool} {a : α}
    (h : need field (o.filter p) = .ok a) : o = some a ∧ p a = true :=
  Option.filter_eq_some_iff.1 (need_eq_ok h)

theorem asU64_lt {x : Value F} {n : ℕ} (h : x.asU64 = some n) : n < 2 ^ 63 := by
  obtain ⟨i, -, hi⟩ := asU64_eq_some_iff.1 h
  have hlt := Int64.toInt_lt i
  omega

theorem memory_sound {value : Value F} {n : ℕ} (h : memory value = some n) : 0 < n ∧ n < 2 ^ 63 := by
  obtain ⟨h, hpos⟩ := Option.filter_eq_some_iff.1 h
  obtain ⟨x, -, hx⟩ := Option.bind_eq_some_iff.1 h
  exact ⟨of_decide_eq_true hpos, asU64_lt hx⟩

theorem parseGpu_sound {gpus : List ReportedGpu} {raw : Value F} {gpu : ReportedGpu}
    (h : parseGpu gpus raw = some gpu) : gpu.Valid ∧ gpu.index ∉ gpus.map (·.index) := by
  obtain ⟨index, hindex, h⟩ := Option.bind_eq_some_iff.1 h
  split at h
  · cases h
  · rename_i hfresh
    obtain ⟨memoryBytes, hmemory, h⟩ := Option.bind_eq_some_iff.1 h
    cases h
    refine ⟨⟨of_decide_eq_true (Option.filter_eq_some_iff.1 hindex).2, ?_, memory_sound hmemory⟩, fun hmem => hfresh ?_⟩
    · rw [String.toList_ofList]
      exact narrow_narrow _ _
    · obtain ⟨other, hother, hsame⟩ := mem_map.1 hmem
      exact any_eq_true.2 ⟨other, hother, decide_eq_true hsame⟩

theorem gpusLoop_sound {raws : List (Value F)} {gpus found : List ReportedGpu} (hvalid : ∀ gpu ∈ gpus, gpu.Valid)
    (hdistinct : (gpus.map (·.index)).Nodup) (h : gpusLoop raws gpus = .ok found) :
    found.length = gpus.length + raws.length ∧ (∀ gpu ∈ found, gpu.Valid) ∧ (found.map (·.index)).Nodup := by
  induction raws generalizing gpus with
  | nil =>
    cases h
    exact ⟨rfl, hvalid, hdistinct⟩
  | cons raw raws ih =>
    rw [gpusLoop] at h
    split at h
    · rename_i gpu hgpu
      obtain ⟨hnew, hfresh⟩ := parseGpu_sound hgpu
      have hall : ∀ other ∈ gpus ++ [gpu], other.Valid := by
        intro other hother
        obtain hother | hother := mem_append.1 hother
        · exact hvalid other hother
        · rw [mem_singleton.1 hother]
          exact hnew
      have hnodup : ((gpus ++ [gpu]).map (·.index)).Nodup := by
        rw [map_append, map_singleton]
        exact nodup_append.2 ⟨hdistinct, nodup_singleton _, fun a ha b hb hab =>
          hfresh (mem_singleton.1 hb ▸ hab ▸ ha)⟩
      obtain ⟨hlen, hrest⟩ := ih hall hnodup h
      refine ⟨?_, hrest⟩
      rw [hlen, length_append, length_singleton, length_cons]
      omega
    · cases h

theorem parseGpus_sound {body : Value F} {gpus : List ReportedGpu} (h : parseGpus body = .ok gpus) :
    gpus.length ≤ maxGpus ∧ gpus.Pairwise gpuLe ∧ (gpus.map (·.index)).Nodup ∧ ∀ gpu ∈ gpus, gpu.Valid := by
  obtain ⟨raws, -, h⟩ := bind_eq_ok h
  obtain ⟨hfew, h⟩ := check_eq_ok h
  obtain ⟨found, hfound, h⟩ := bind_eq_ok h
  cases h
  have hnone : ∀ gpu ∈ ([] : List ReportedGpu), gpu.Valid := fun gpu hgpu => absurd hgpu not_mem_nil
  have hnodup : (([] : List ReportedGpu).map (·.index)).Nodup := nodup_nil
  obtain ⟨hlen, hvalid, hdistinct⟩ := gpusLoop_sound hnone hnodup hfound
  have hperm := perm_insertionSort gpuLe found
  refine ⟨?_, pairwise_insertionSort _ _, (hperm.map _).nodup_iff.2 hdistinct, fun gpu hgpu => ?_⟩
  · rw [length_insertionSort, hlen, length_nil, Nat.zero_add]
    exact Nat.le_of_not_lt hfew
  · exact hvalid gpu (hperm.mem_iff.1 hgpu)

/-- **What is accepted is in the form that the checks leave it in.** -/
theorem parseRegistration_valid {body : Value F} {r : Registration} (h : parseRegistration body = .ok r) :
    r.Valid := by
  obtain ⟨_, -, h⟩ := bind_eq_ok h
  obtain ⟨_, -, h⟩ := bind_eq_ok h
  obtain ⟨address, haddress, h⟩ := bind_eq_ok h
  obtain ⟨_, -, h⟩ := bind_eq_ok h
  obtain ⟨arch, -, h⟩ := bind_eq_ok h
  obtain ⟨hostname, -, h⟩ := bind_eq_ok h
  obtain ⟨_, -, h⟩ := bind_eq_ok h
  obtain ⟨sshUser, huser, h⟩ := bind_eq_ok h
  obtain ⟨_, -, h⟩ := bind_eq_ok h
  obtain ⟨dataDir, hdir, h⟩ := bind_eq_ok h
  obtain ⟨memoryBytes, hmemory, h⟩ := bind_eq_ok h
  obtain ⟨_, -, h⟩ := bind_eq_ok h
  obtain ⟨hostKey, hkey, h⟩ := bind_eq_ok h
  obtain ⟨_, -, h⟩ := bind_eq_ok h
  obtain ⟨deviceKey, hdevice, h⟩ := bind_eq_ok h
  obtain ⟨_, -, h⟩ := bind_eq_ok h
  obtain ⟨kitVersion, hkit, h⟩ := bind_eq_ok h
  obtain ⟨gpus, hgpus, h⟩ := bind_eq_ok h
  cases h
  obtain ⟨hfew, hsorted, hdistinct, hvalid⟩ := parseGpus_sound hgpus
  exact {
    address := by simpa using (need_filter haddress).2
    hostname := by rw [String.toList_ofList]; exact narrow_narrow _ _
    sshUser := by rw [String.toList_ofList]; exact (need_filter huser).2
    dataDir := by rw [String.toList_ofList]; exact (need_filter hdir).2
    memoryBytes := memory_sound (need_eq_ok hmemory)
    hostKey := sshEd25519Line_sound (need_eq_ok hkey)
    deviceKey := deviceKeyPem_sound (need_eq_ok hdevice)
    kitVersion := by rw [String.toList_ofList]; exact (need_filter hkit).2
    few := hfew
    sorted := hsorted
    distinct := hdistinct
    gpus := hvalid }

/-! ### What was written is accepted -/

theorem asU64_ofNat (toFloat : UInt64 → F) {n : ℕ} (h : n < 2 ^ 63) :
    (Value.ofU64 toFloat (UInt64.ofNat n)).asU64 = some n := by
  have hnat : (UInt64.ofNat n).toNat = n := by
    rw [UInt64.toNat_ofNat']
    exact Nat.mod_eq_of_lt (by omega)
  rw [Value.asU64_ofU64, hnat, if_pos h]

theorem parseGpu_gpuValue (toFloat : UInt64 → F) {gpus : List ReportedGpu} {gpu : ReportedGpu} (h : gpu.Valid)
    (hfresh : gpu.index ∉ gpus.map (·.index)) : parseGpu gpus (gpuValue toFloat gpu) = some gpu := by
  have hindex : ((gpuValue toFloat gpu).get "index".toList).bind Value.asU64 = some gpu.index :=
    asU64_ofNat toFloat (h.index.trans (by decide))
  have hmemory : memory (gpuValue toFloat gpu) = some gpu.memoryBytes := by
    have hread : ((gpuValue toFloat gpu).get "memory_bytes".toList).bind Value.asU64 = some gpu.memoryBytes :=
      asU64_ofNat toFloat h.memoryBytes.2
    rw [memory, hread, Option.filter_eq_some_iff]
    exact ⟨rfl, decide_eq_true h.memoryBytes.1⟩
  have hname : ((gpuValue toFloat gpu).get "name".toList).bind Value.asStr = some gpu.name.toList := rfl
  have hfilter : (some gpu.index).filter (fun i => decide (i < 64)) = some gpu.index :=
    Option.filter_eq_some_iff.2 ⟨rfl, decide_eq_true h.index⟩
  have hnone : gpus.any (fun other => other.index = gpu.index) = false := by
    rw [any_eq_false]
    intro other hother hsame
    exact hfresh (mem_map.2 ⟨other, hother, of_decide_eq_true hsame⟩)
  rw [parseGpu, hindex, hfilter]
  show (if _ then _ else _) = _
  rw [hnone, if_neg Bool.false_ne_true, hname, hmemory]
  show some (⟨gpu.index, String.ofList (narrow gpu.name.toList maxGpuName), gpu.memoryBytes⟩ : ReportedGpu) = _
  rw [h.name, String.ofList_toList]

theorem gpusLoop_gpuValue (toFloat : UInt64 → F) {gpus before : List ReportedGpu} (h : ∀ gpu ∈ gpus, gpu.Valid)
    (hdistinct : ((before ++ gpus).map (·.index)).Nodup) :
    gpusLoop (gpus.map (gpuValue toFloat)) before = .ok (before ++ gpus) := by
  induction gpus generalizing before with
  | nil =>
    rw [append_nil]
    rfl
  | cons gpu gpus ih =>
    have hfresh : gpu.index ∉ before.map (·.index) := by
      rw [map_append, map_cons, nodup_append] at hdistinct
      exact fun hmem => hdistinct.2.2 _ hmem _ mem_cons_self rfl
    have hmove : before ++ gpu :: gpus = (before ++ [gpu]) ++ gpus := by simp
    rw [map_cons, gpusLoop, parseGpu_gpuValue toFloat (h gpu mem_cons_self) hfresh]
    rw [hmove] at hdistinct ⊢
    exact ih (fun other hother => h other (mem_cons_of_mem gpu hother)) hdistinct

theorem Arch.parse_asStr (arch : Arch) : Arch.parse arch.asStr.toList = some arch := by
  cases arch <;> rfl

/-- **A registration is read back from its stored form.** -/
theorem Registration.Valid.read_back {r : Registration} (h : r.Valid) (toFloat : UInt64 → F) :
    parseRegistration (registrationValue toFloat r true) = .ok r := by
  have hgpus : parseGpus (registrationValue toFloat r true) = .ok r.gpus := by
    have hraw : rawGpus (registrationValue toFloat r true) = .ok (r.gpus.map (gpuValue toFloat)) := rfl
    have hdistinct : (([] ++ r.gpus).map ReportedGpu.index).Nodup := h.distinct
    have hloop : gpusLoop (r.gpus.map (gpuValue toFloat)) [] = .ok r.gpus :=
      gpusLoop_gpuValue toFloat h.gpus hdistinct
    rw [parseGpus, hraw]
    show (if _ then _ else _) = _
    rw [length_map, if_neg (Nat.not_lt.2 h.few), hloop]
    show Except.ok (r.gpus.insertionSort gpuLe) = _
    rw [h.sorted.insertionSort_eq]
  have hmemory : memory (registrationValue toFloat r true) = some r.memoryBytes := by
    have hread : ((registrationValue toFloat r true).get "memory_bytes".toList).bind Value.asU64 =
        some r.memoryBytes := asU64_ofNat toFloat h.memoryBytes.2
    rw [memory, hread, Option.filter_eq_some_iff]
    exact ⟨rfl, decide_eq_true h.memoryBytes.1⟩
  have hfilter : ∀ {α : Type} (p : α → Bool) (a : α), p a = true → (some a).filter p = some a :=
    fun p a ha => Option.filter_eq_some_iff.2 ⟨rfl, ha⟩
  have hdisplay : parseAddress r.address.display = some r.address := parseIp_display r.address
  have haddress : text (registrationValue toFloat r true) "address" = .ok r.address.display := rfl
  have harch : text (registrationValue toFloat r true) "arch" = .ok r.arch.asStr.toList := rfl
  have hhostname : text (registrationValue toFloat r true) "hostname" = .ok r.hostname.toList := rfl
  have huser : text (registrationValue toFloat r true) "ssh_user" = .ok r.sshUser.toList := rfl
  have hdir : text (registrationValue toFloat r true) "data_dir" = .ok r.dataDir.toList := rfl
  have hkey : text (registrationValue toFloat r true) "ssh_host_key" = .ok r.hostKey.line := rfl
  have hdevice : text (registrationValue toFloat r true) "device_key" = .ok r.deviceKey.pem := rfl
  have hkit : text (registrationValue toFloat r true) "kit_version" = .ok r.kitVersion.toList := rfl
  simp only [parseRegistration, haddress, harch, hhostname, huser, hdir, hkey, hdevice, hkit, hmemory, hgpus,
    hdisplay, Arch.parse_asStr, sshEd25519Line_line h.hostKey, deviceKeyPem_pem h.deviceKey,
    hfilter _ _ h.sshUser, hfilter _ _ h.dataDir, hfilter _ _ h.kitVersion, need, bind, Except.bind,
    hfilter (fun a => !(isUnspecified a || isMulticast a)) r.address (by rw [h.address]; rfl), h.hostname,
    String.ofList_toList]
  rfl

/-- **What is accepted is read back from its stored form.** -/
theorem parseRegistration_value {body : Value F} {r : Registration} (h : parseRegistration body = .ok r)
    (toFloat : UInt64 → F) : parseRegistration (registrationValue toFloat r true) = .ok r :=
  (parseRegistration_valid h).read_back toFloat

/-! ### No text that means something else -/

/-- What a shell reads as more than itself. -/
def shellMeta : List Char := "|&;<>()$`\\*?[]#~=%!^\x7b\x7d".toList

/-- Whitespace, a quote, a control character or what a shell reads as more than itself. -/
def special (c : Char) : Bool :=
  Http.isWhiteSpace c || c = '"' || c = '\'' || isControl c || shellMeta.contains c

/-- A text of a class of bytes without special ones. -/
theorem not_special {text : List Char} {p : UInt8 → Bool} (h : (Utf8.encode text).all p = true)
    (hp : ∀ n < 256, p (UInt8.ofNat n) = true → n < 128 ∧ special (Char.ofNat n) = false) :
    ∀ c ∈ text, special c = false := by
  intro c hc
  have hclass : ∀ b : UInt8, p b = true → b.toNat < 128 ∧ special (Char.ofNat b.toNat) = false := by
    intro b hb
    refine hp b.toNat b.toNat_lt ?_
    rwa [UInt8.ofNat_toNat]
  obtain ⟨hascii, hbyte⟩ := Utf8.forall_ascii (all_eq_true.1 h) (fun b hb => (hclass b hb).1) hc
  have hnat : (UInt8.ofNat c.toNat).toNat = c.toNat := UInt8.toNat_ofNat_of_lt' (show c.toNat < 256 by omega)
  have hplain := (hclass _ hbyte).2
  rwa [hnat, Char.ofNat_toNat] at hplain

theorem Registration.Valid.sshUser_plain {r : Registration} (h : r.Valid) :
    ∀ c ∈ r.sshUser.toList, special c = false := by
  have huser := h.sshUser
  simp only [isSshUser, Bool.and_eq_true] at huser
  exact not_special huser.2 (by decide +kernel)

theorem Registration.Valid.dataDir_plain {r : Registration} (h : r.Valid) :
    ∀ c ∈ r.dataDir.toList, special c = false := by
  have hdir := h.dataDir
  simp only [isDataDir, Bool.and_eq_true] at hdir
  exact not_special hdir.2 (by decide +kernel)

/-- The line is the name of the algorithm, one space and a text without spaces that is the base64 of one
blob of 51 bytes, which starts as an Ed25519 key does. -/
structure IsKeyLine (line : List Char) (blob : List UInt8) : Prop where
  line : line = keyName ++ ' ' :: Base64.encodeStd blob
  length : blob.length = 51
  start : blobStart <+: blob
  noSpace : ' ' ∉ Base64.encodeStd blob
  canonical : Base64.decode (Utf8.encode (Base64.encodeStd blob)) .standard .required 51 = .ok blob

theorem Registration.Valid.hostKey_line {r : Registration} (h : r.Valid) :
    IsKeyLine r.hostKey.line r.hostKey.blob := by
  have hlength : r.hostKey.blob.length = 51 := h.hostKey.length_eq
  exact {
    line := rfl
    length := hlength
    start := h.hostKey.start
    noSpace := notMem_encodeStd (by decide) (by decide)
    canonical := Base64.decode_encode _ _ hlength.le }

end HypeLlm.Fleet
