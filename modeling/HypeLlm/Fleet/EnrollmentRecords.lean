import HypeLlm.Fleet.Registrations

/-!
# Enrollments as they are logged

A record is one JSON object, with the registration in it as an object of its own.  What is set only later
is left out until then.

* `encodeEnrollment`, `decodeEnrollment` — a record and its bytes;
* `Enrollment.ofJson_toJson` — what was written of a record is read;
* **`enrollments_read_back`** — a record is read back, and the texts in it that are used elsewhere mean
  nothing to a shell.
-/

namespace HypeLlm.Fleet

open HypeLlm.Json HypeLlm.Net HypeLlm.Crypto List
open HypeLlm.Auth.Stored (written reading reading_written hexEncode hexDecode hexDecode_hexEncode)

variable {F : Type}

/-! ### Writing -/

def EnrollmentState.asStr : EnrollmentState → String
  | .issued => "issued"
  | .registered => "registered"
  | .approved => "approved"
  | .rejected => "rejected"
  | .expired => "expired"
  | .revoked => "revoked"

def EnrollmentState.parse (raw : List Char) : Option EnrollmentState :=
  if raw = "issued".toList then some .issued
  else if raw = "registered".toList then some .registered
  else if raw = "approved".toList then some .approved
  else if raw = "rejected".toList then some .rejected
  else if raw = "expired".toList then some .expired
  else if raw = "revoked".toList then some .revoked
  else none

theorem EnrollmentState.parse_asStr (state : EnrollmentState) : parse state.asStr.toList = some state := by
  cases state <;> rfl

/-- A time of 64 bits. -/
def timeValue (toFloat : UInt64 → F) (t : ℕ) : Value F := .ofU64 toFloat (UInt64.ofNat t)

def stringValue (s : String) : Value F := .string s.toList

def Enrollment.toJson (toFloat : UInt64 → F) (e : Enrollment) : Value F :=
  let o := Object.push [] "id".toList (stringValue e.id)
  let o := Object.push o "host".toList (stringValue e.host)
  let o := Object.push o "agent".toList (stringValue e.agent)
  let o := Object.push o "token_digest".toList (.string (hexEncode e.tokenDigest))
  let o := Object.push o "issued_by".toList (stringValue e.issuedBy)
  let o := Object.push o "issued_at".toList (timeValue toFloat e.issuedAtMs)
  let o := Object.push o "expires_at".toList (timeValue toFloat e.expiresAtMs)
  let o := Object.push o "state".toList (stringValue e.state.asStr)
  let o := Object.pushOpt o "registration".toList (e.registration.map fun r => registrationValue toFloat r true)
  let o := Object.pushOpt o "registered_at".toList (e.registeredAtMs.map (timeValue toFloat))
  let o := Object.pushOpt o "decided_by".toList (e.decidedBy.map stringValue)
  let o := Object.pushOpt o "decided_at".toList (e.decidedAtMs.map (timeValue toFloat))
  .object (Object.pushOpt o "draft".toList (e.draft.map stringValue))

def encodeEnrollment (floats : FloatText F) (toFloat : UInt64 → F) (e : Enrollment) : List UInt8 :=
  written floats (e.toJson toFloat)

/-! ### Reading -/

/-- A digit or one of the first six lowercase letters. -/
def lowerHexByte (b : UInt8) : Bool := decide (48 ≤ b ∧ b ≤ 57) || decide (97 ≤ b ∧ b ≤ 102)

/-- 16 lowercase hexadecimal digits. -/
def isEnrollmentId (raw : List Char) : Bool := byteLen raw = 16 && (Utf8.encode raw).all lowerHexByte

/-- An identifier of a host or an agent. -/
def identifier (raw : List Char) : Option String :=
  if Admin.validate (String.ofList raw) then some (String.ofList raw) else none

def decodeDigest (raw : List Char) : Option (List UInt8) :=
  (hexDecode (Utf8.encode raw)).filter fun bytes => bytes.length = 32

/-- What may be absent, and is otherwise read. -/
def optional {α : Type} (read : Value F → Option α) : Option (Value F) → Option (Option α)
  | none | some .null => some none
  | some v => (read v).map some

def asText (v : Value F) : Option String := v.asStr.map String.ofList

def asRegistration (v : Value F) : Option Registration :=
  match parseRegistration v with
  | .ok r => some r
  | .error _ => none

def isObject : Value F → Bool
  | .object _ => true
  | _ => false

def Enrollment.ofJson (value : Value F) : Option Enrollment :=
  if isObject value then do
    let id ← ((value.get "id".toList).bind Value.asStr).filter isEnrollmentId
    let tokenDigest ← ((value.get "token_digest".toList).bind Value.asStr).bind decodeDigest
    let registration ← optional asRegistration (value.get "registration".toList)
    let host ← ((value.get "host".toList).bind Value.asStr).bind identifier
    let agent ← ((value.get "agent".toList).bind Value.asStr).bind identifier
    let issuedBy ← (value.get "issued_by".toList).bind asText
    let issuedAtMs ← (value.get "issued_at".toList).bind Value.asU64
    let expiresAtMs ← (value.get "expires_at".toList).bind Value.asU64
    let state ← ((value.get "state".toList).bind Value.asStr).bind EnrollmentState.parse
    let registeredAtMs ← optional Value.asU64 (value.get "registered_at".toList)
    let decidedBy ← optional asText (value.get "decided_by".toList)
    let decidedAtMs ← optional Value.asU64 (value.get "decided_at".toList)
    let draft ← optional asText (value.get "draft".toList)
    return ⟨String.ofList id, host, agent, tokenDigest, issuedBy, issuedAtMs, expiresAtMs, state, registration,
      registeredAtMs, decidedBy, decidedAtMs, draft⟩
  else none

def decodeEnrollment (floats : FloatText F) : List UInt8 → Option Enrollment := reading floats Enrollment.ofJson

/-! ### What a record is -/

/-- What the types of a record promise, with times that are signed numbers of 64 bits. -/
structure Enrollment.Typed (e : Enrollment) : Prop where
  id : isEnrollmentId e.id.toList = true
  host : Admin.validate e.host = true
  agent : Admin.validate e.agent = true
  tokenDigest : e.tokenDigest.length = 32
  issuedAtMs : e.issuedAtMs < 2 ^ 63
  expiresAtMs : e.expiresAtMs < 2 ^ 63
  registeredAtMs : ∀ t, e.registeredAtMs = some t → t < 2 ^ 63
  decidedAtMs : ∀ t, e.decidedAtMs = some t → t < 2 ^ 63

/-- The registration, if there is one, was accepted from some JSON. -/
def Enrollment.Reported (F : Type) (e : Enrollment) : Prop :=
  ∀ r, e.registration = some r → ∃ body : Value F, parseRegistration body = .ok r

/-! ### What was written is read -/

theorem identifier_toList {s : String} (h : Admin.validate s = true) : identifier s.toList = some s := by
  rw [identifier, String.ofList_toList, if_pos h]

theorem decodeDigest_hexEncode {bytes : List UInt8} (h : bytes.length = 32) :
    decodeDigest (hexEncode bytes) = some bytes := by
  rw [decodeDigest, hexDecode_hexEncode, Option.filter_eq_some_iff]
  exact ⟨rfl, decide_eq_true h⟩

/-- What may be absent is read back, if its value is not null and is read back. -/
theorem optional_map {α : Type} {read : Value F → Option α} {write : α → Value F} {o : Option α}
    (hread : ∀ a, o = some a → read (write a) = some a) (hnull : ∀ a, write a ≠ .null) :
    optional read (o.map write) = some o := by
  cases o with
  | none => rfl
  | some a =>
    have hsome : optional read (some (write a)) = (read (write a)).map some := by
      cases hvalue : write a with
      | null => exact absurd hvalue (hnull a)
      | bool | number | string | array | object => rfl
    rw [Option.map_some, hsome, hread a rfl, Option.map_some]

theorem timeValue_ne_null (toFloat : UInt64 → F) (t : ℕ) : timeValue toFloat t ≠ .null := by
  rw [timeValue, Value.ofU64]
  intro h
  split at h <;> cases h

theorem asText_stringValue (s : String) : asText (stringValue s : Value F) = some s := by
  show some (String.ofList s.toList) = _
  rw [String.ofList_toList]

/-- What a written record holds. -/
theorem Enrollment.get_toJson (toFloat : UInt64 → F) (e : Enrollment) (k : List Char) :
    (e.toJson toFloat).get k =
      ((((((((((((if "id".toList = k then some (stringValue e.id) else none).or
        (if "host".toList = k then some (stringValue e.host) else none)).or
        (if "agent".toList = k then some (stringValue e.agent) else none)).or
        (if "token_digest".toList = k then some (.string (hexEncode e.tokenDigest)) else none)).or
        (if "issued_by".toList = k then some (stringValue e.issuedBy) else none)).or
        (if "issued_at".toList = k then some (timeValue toFloat e.issuedAtMs) else none)).or
        (if "expires_at".toList = k then some (timeValue toFloat e.expiresAtMs) else none)).or
        (if "state".toList = k then some (stringValue e.state.asStr) else none)).or
        (if "registration".toList = k then e.registration.map fun r => registrationValue toFloat r true
          else none)).or
        (if "registered_at".toList = k then e.registeredAtMs.map (timeValue toFloat) else none)).or
        (if "decided_by".toList = k then e.decidedBy.map stringValue else none)).or
        (if "decided_at".toList = k then e.decidedAtMs.map (timeValue toFloat) else none)).or
        (if "draft".toList = k then e.draft.map stringValue else none) := by
  simp only [toJson, get_pushOpt, get_push, get_nil, Option.none_or]

theorem Enrollment.ofJson_toJson {e : Enrollment} (h : e.Typed) (hreported : e.Reported F) (toFloat : UInt64 → F) :
    ofJson (e.toJson toFloat) = some e := by
  have hget := e.get_toJson toFloat
  have hid : (e.toJson toFloat).get "id".toList = some (stringValue e.id) := hget _
  have hhost : (e.toJson toFloat).get "host".toList = some (stringValue e.host) := hget _
  have hagent : (e.toJson toFloat).get "agent".toList = some (stringValue e.agent) := hget _
  have hdigest : (e.toJson toFloat).get "token_digest".toList = some (.string (hexEncode e.tokenDigest)) := hget _
  have hissuedBy : (e.toJson toFloat).get "issued_by".toList = some (stringValue e.issuedBy) := hget _
  have hissuedAt : (e.toJson toFloat).get "issued_at".toList = some (timeValue toFloat e.issuedAtMs) := hget _
  have hexpires : (e.toJson toFloat).get "expires_at".toList = some (timeValue toFloat e.expiresAtMs) := hget _
  have hstate : (e.toJson toFloat).get "state".toList = some (stringValue e.state.asStr) := hget _
  have hregistration : (e.toJson toFloat).get "registration".toList =
      e.registration.map fun r => registrationValue toFloat r true := by
    rw [hget]
    simp
  have hregistered : (e.toJson toFloat).get "registered_at".toList = e.registeredAtMs.map (timeValue toFloat) := by
    rw [hget]
    simp
  have hdecidedBy : (e.toJson toFloat).get "decided_by".toList = e.decidedBy.map stringValue := by
    rw [hget]
    simp
  have hdecidedAt : (e.toJson toFloat).get "decided_at".toList = e.decidedAtMs.map (timeValue toFloat) := by
    rw [hget]
    simp
  have hdraft : (e.toJson toFloat).get "draft".toList = e.draft.map stringValue := by
    rw [hget]
    simp
  have hfull : optional asRegistration (e.registration.map fun r => registrationValue toFloat r true) =
      some e.registration := by
    refine optional_map (fun r hr => ?_) fun r => nofun
    obtain ⟨body, hbody⟩ := hreported r hr
    rw [asRegistration, parseRegistration_value hbody toFloat]
  have htime : ∀ o : Option ℕ, (∀ t, o = some t → t < 2 ^ 63) →
      optional Value.asU64 (o.map (timeValue toFloat)) = some o := fun o ho =>
    optional_map (fun t ht => asU64_ofNat toFloat (ho t ht)) (timeValue_ne_null toFloat)
  have htext : ∀ o : Option String, optional asText (o.map stringValue : Option (Value F)) = some o := fun o =>
    optional_map (fun s _ => asText_stringValue s) fun s => nofun
  have hidRead : (some e.id.toList).filter isEnrollmentId = some e.id.toList :=
    Option.filter_eq_some_iff.2 ⟨rfl, h.id⟩
  have hasStr : ∀ s : String, (stringValue s : Value F).asStr = some s.toList := fun s => rfl
  have hasHex : (Value.string (hexEncode e.tokenDigest) : Value F).asStr = some (hexEncode e.tokenDigest) := rfl
  have hnow : ∀ t < 2 ^ 63, (timeValue toFloat t).asU64 = some t := fun t ht => asU64_ofNat toFloat ht
  have hobject : isObject (e.toJson toFloat) = true := rfl
  rw [ofJson, if_pos hobject, hid, hdigest, hregistration, hhost, hagent, hissuedBy, hissuedAt, hexpires, hstate,
    hregistered, hdecidedBy, hdecidedAt, hdraft]
  simp only [Option.bind_some, hasStr, hasHex, hidRead, decodeDigest_hexEncode h.tokenDigest, hfull,
    identifier_toList h.host, identifier_toList h.agent, asText_stringValue, hnow _ h.issuedAtMs, hnow _ h.expiresAtMs,
    EnrollmentState.parse_asStr, htime _ h.registeredAtMs, htime _ h.decidedAtMs, htext, Option.bind_eq_bind,
    String.ofList_toList]
  rfl

/-! ### No floats -/

theorem noFloats_registration {toFloat : UInt64 → F} {r : Registration} (h : r.Valid) :
    (registrationValue toFloat r true).NoFloats := by
  have htime : ∀ t < 2 ^ 63, (Value.ofU64 toFloat (UInt64.ofNat t)).NoFloats := by
    intro t ht
    refine noFloats_ofU64 toFloat ?_
    rw [UInt64.toNat_ofNat']
    omega
  have hgpus : (Value.array (r.gpus.map (gpuValue toFloat))).NoFloats := by
    refine noFloats_array fun v hv => ?_
    obtain ⟨gpu, hgpu, rfl⟩ := mem_map.1 hv
    have hvalid := h.gpus gpu hgpu
    have hindex : gpu.index < 2 ^ 63 := hvalid.index.trans (by decide)
    refine noFloats_object ?_
    simp only [forall_mem_cons]
    exact ⟨htime _ hindex, noFloats_string _, htime _ hvalid.memoryBytes.2, fun e he => by cases he⟩
  refine noFloats_object ?_
  simp only [keyEntries, if_true, forall_mem_append, forall_mem_cons]
  exact ⟨⟨⟨noFloats_string _, noFloats_string _, noFloats_string _, noFloats_string _, noFloats_string _,
    htime _ h.memoryBytes.2, hgpus, fun e he => by cases he⟩, noFloats_string _, noFloats_string _,
    fun e he => by cases he⟩, noFloats_string _, noFloats_string _, noFloats_string _, fun e he => by cases he⟩

theorem Enrollment.noFloats {e : Enrollment} (h : e.Typed) (hreported : e.Reported F) (toFloat : UInt64 → F) :
    (e.toJson toFloat).NoFloats := by
  have hstring : ∀ s : List Char, (Value.string s : Value F).NoFloats := noFloats_string
  have htime : ∀ t < 2 ^ 63, (timeValue toFloat t).NoFloats := by
    intro t ht
    refine noFloats_ofU64 toFloat ?_
    rw [UInt64.toNat_ofNat']
    omega
  have htimes : ∀ o : Option ℕ, (∀ t, o = some t → t < 2 ^ 63) → ∀ v, o.map (timeValue toFloat) = some v →
      v.NoFloats := by
    intro o ho v hv
    obtain ⟨t, ht, rfl⟩ := Option.map_eq_some_iff.1 hv
    exact htime t (ho t ht)
  have hstrings : ∀ o : Option String, ∀ v, o.map stringValue = some v → (v : Value F).NoFloats := by
    intro o v hv
    obtain ⟨s, -, rfl⟩ := Option.map_eq_some_iff.1 hv
    exact hstring _
  refine noFloats_object (forall_pushOpt (forall_pushOpt (forall_pushOpt (forall_pushOpt (forall_pushOpt
    (forall_push (forall_push (forall_push (forall_push (forall_push (forall_push (forall_push (forall_push ?_
      (hstring _)) (hstring _)) (hstring _)) (hstring _)) (hstring _)) (htime _ h.issuedAtMs))
      (htime _ h.expiresAtMs)) (hstring _)) ?_) (htimes _ h.registeredAtMs)) (hstrings _))
      (htimes _ h.decidedAtMs)) (hstrings _))
  · exact fun entry hentry => by cases hentry
  · intro v hv
    obtain ⟨r, hr, rfl⟩ := Option.map_eq_some_iff.1 hv
    obtain ⟨body, hbody⟩ := hreported r hr
    exact noFloats_registration (parseRegistration_valid hbody)

/-! ### The result -/

/-- **Enrollments are read back, and carry no text that means something else.**  A registration that was
accepted is accepted in its stored form and gives the same; a record within the parser's limits, of such a
registration or of none, is read back; the line of the host key is the name of the algorithm, one space
and the base64 of one key; and the user and the directory are plain text. -/
theorem enrollments_read_back (floats : FloatText F) (toFloat : UInt64 → F) :
    (∀ (body : Value F) (r : Registration), parseRegistration body = .ok r →
      parseRegistration (registrationValue toFloat r true) = .ok r ∧
        IsKeyLine r.hostKey.line r.hostKey.blob ∧
        (∀ c ∈ r.sshUser.toList, special c = false) ∧ ∀ c ∈ r.dataDir.toList, special c = false) ∧
    ∀ e : Enrollment, e.Typed → e.Reported F → Accepted floats .small (e.toJson toFloat) →
      decodeEnrollment floats (encodeEnrollment floats toFloat e) = some e := by
  refine ⟨fun body r hbody => ?_, fun e htyped hreported haccepted => ?_⟩
  · have hvalid := parseRegistration_valid hbody
    exact ⟨parseRegistration_value hbody toFloat, hvalid.hostKey_line, hvalid.sshUser_plain, hvalid.dataDir_plain⟩
  · rw [decodeEnrollment, encodeEnrollment, reading_written (Enrollment.noFloats htyped hreported toFloat) haccepted]
    exact Enrollment.ofJson_toJson htyped hreported toFloat

namespace Sample

open HypeLlm.Auth.Stored (accepted_parts PartFits)
open HypeLlm.Auth.Stored.Sample (partFits_string partFits_int)

def blob : List UInt8 := blobStart ++ replicate 32 7

def der : List UInt8 := ed25519SpkiStart ++ replicate 32 9

/-- A report with a comment after a key, line ends in the other, and names that are not displayed as they
are. -/
def hostileBody : Value Unit := .object
  [("address".toList, .string "10.0.0.7".toList),
    ("arch".toList, .string "amd64".toList),
    ("hostname".toList, .string "gpu<box>".toList),
    ("ssh_user".toList, .string "hype".toList),
    ("data_dir".toList, .string "/srv/llm".toList),
    ("memory_bytes".toList, .ofU64 (fun _ => ()) 64000000000),
    ("gpus".toList, .array
      [.object [("index".toList, .ofU64 (fun _ => ()) 1), ("memory_bytes".toList, .ofU64 (fun _ => ()) 1000)],
        .object [("index".toList, .ofU64 (fun _ => ()) 0), ("name".toList, .string "A;B".toList),
          ("memory_bytes".toList, .ofU64 (fun _ => ()) 2000)]]),
    ("ssh_host_key".toList, .string (keyName ++ ' ' :: (Base64.encodeStd blob ++ " root@gpu;reboot".toList))),
    ("device_key".toList, .string ('\n' :: (pemBegin ++ (Base64.encodeStd der ++ '\r' :: '\n' :: pemEnd)))),
    ("kit_version".toList, .string "1.2.3".toList)]

/-- What is left of it. -/
def registration : Registration where
  address := .v4 ⟨10, 0, 0, 7⟩
  arch := .x86_64
  hostname := "gpu_box_"
  sshUser := "hype"
  dataDir := "/srv/llm"
  gpus := [⟨0, "A_B", 2000⟩, ⟨1, "", 1000⟩]
  memoryBytes := 64000000000
  hostKey := ⟨blob⟩
  deviceKey := ⟨der⟩
  kitVersion := "1.2.3"

def enrollment : Enrollment where
  id := "0123456789abcdef"
  host := "gpu-7"
  agent := "rack-1"
  tokenDigest := replicate 32 1
  issuedBy := "ann"
  issuedAtMs := 1700000000000
  expiresAtMs := 1700000600000
  state := .registered
  registration := some registration
  registeredAtMs := some 1700000300000
  decidedBy := none
  decidedAtMs := none
  draft := none

theorem hostileBody_accepted : parseRegistration hostileBody = .ok registration := by decide +kernel

theorem stringPart_fits {levels : ℕ} {s : List Char} (h : 6 * (Utf8.encode s).length ≤ 65536) :
    Fits oneAndAHalf .small (StringFits 65536) levels (.string s) := .string (stringFits_of_short h)

theorem timePart_fits {levels t : ℕ} (h : t < 2 ^ 63) :
    Fits oneAndAHalf .small (StringFits 65536) levels (.ofU64 (fun _ => ()) (UInt64.ofNat t)) := by
  have hsmall : (UInt64.ofNat t).toNat < 2 ^ 63 := by
    rw [UInt64.toNat_ofNat']
    omega
  rw [Value.ofU64, if_pos hsmall]
  exact .int _

theorem registration_fits :
    Fits oneAndAHalf .small (StringFits 65536) 31 (registrationValue (fun _ => ()) registration true) := by
  have hgpus : ∀ v ∈ registration.gpus.map (gpuValue fun _ => ()),
      Fits oneAndAHalf .small (StringFits 65536) 29 v := by
    intro v hv
    obtain ⟨gpu, hgpu, rfl⟩ := mem_map.1 hv
    have hsmall : ∀ gpu ∈ registration.gpus, gpu.index < 2 ^ 63 ∧ gpu.memoryBytes < 2 ^ 63 ∧
        6 * (Utf8.encode gpu.name.toList).length ≤ 65536 := by decide
    obtain ⟨hindex, hmemory, hname⟩ := hsmall gpu hgpu
    have hkeys : ["index".toList, "name".toList, "memory_bytes".toList].Nodup := by decide
    refine .object (show 3 ≤ 2000 by decide) (fun _ => hkeys) ?_ ?_
    · simp only [forall_mem_cons]
      exact ⟨stringFits_of_short (by decide), stringFits_of_short (by decide), stringFits_of_short (by decide),
        fun e he => by cases he⟩
    · simp only [forall_mem_cons]
      exact ⟨timePart_fits hindex, stringPart_fits hname, timePart_fits hmemory, fun e he => by cases he⟩
  refine .object (by decide) (fun _ => by decide) ?_ ?_
  · simp only [keyEntries, if_true, forall_mem_append, forall_mem_cons]
    refine ⟨⟨⟨?_, ?_, ?_, ?_, ?_, ?_, ?_, fun e he => by cases he⟩, ?_, ?_, fun e he => by cases he⟩, ?_, ?_, ?_,
      fun e he => by cases he⟩
    all_goals exact stringFits_of_short (by decide)
  · simp only [keyEntries, if_true, forall_mem_append, forall_mem_cons]
    refine ⟨⟨⟨?_, ?_, ?_, ?_, ?_, timePart_fits (by decide), .array (by decide) hgpus, fun e he => by cases he⟩,
      ?_, ?_, fun e he => by cases he⟩, ?_, ?_, ?_, fun e he => by cases he⟩
    all_goals exact stringPart_fits (by decide +kernel)

theorem enrollment_accepted : Accepted oneAndAHalf .small (enrollment.toJson fun _ => ()) := by
  have hregistration : PartFits oneAndAHalf 10000
      ("registration".toList, registrationValue (fun _ => ()) registration true) :=
    ⟨by decide, by decide +kernel, registration_fits, noFloats_registration (parseRegistration_valid hostileBody_accepted)⟩
  refine (accepted_parts (forall_push (forall_push (forall_push (forall_push (forall_push (forall_push (forall_push
    (forall_push (forall_push (forall_push ?_ (partFits_string (by decide))) (partFits_string (by decide)))
      (partFits_string (by decide))) (partFits_string (by decide))) (partFits_string (by decide)))
      (partFits_int (by decide) (by decide))) (partFits_int (by decide) (by decide)))
      (partFits_string (by decide))) hregistration) (partFits_int (by decide) (by decide))) ?_ ?_ ?_).1
  · exact fun e he => by cases he
  · decide
  · decide
  · decide

/-- What is left of a report is read back, and the record of it too. -/
theorem hostile_enrollment :
    parseRegistration (registrationValue (fun _ => ()) registration true) = .ok registration ∧
      (∀ c ∈ registration.sshUser.toList, special c = false) ∧
      decodeEnrollment oneAndAHalf (encodeEnrollment oneAndAHalf (fun _ => ()) enrollment) = some enrollment := by
  obtain ⟨hregistrations, hrecords⟩ := enrollments_read_back oneAndAHalf fun _ => ()
  obtain ⟨hread, -, huser, -⟩ := hregistrations hostileBody registration hostileBody_accepted
  refine ⟨hread, huser, hrecords enrollment ?_ ?_ enrollment_accepted⟩
  · exact ⟨by decide, by decide, by decide, by decide, by decide, by decide, by rintro t ⟨⟩; decide,
      by rintro t ⟨⟩⟩
  · rintro r ⟨⟩
    exact ⟨hostileBody, hostileBody_accepted⟩

end Sample

end HypeLlm.Fleet
