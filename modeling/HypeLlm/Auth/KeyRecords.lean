import HypeLlm.Admin.Drafts
import HypeLlm.Json.Objects
import HypeLlm.Net.Blocks
import HypeLlm.Net.Host

/-!
# Key records as they are stored

A key's record, a change of its expiry and a change of its restrictions are JSON objects.  A record
carries everything of the key but its restrictions, which come in changes of their own.  How an address
is written out is the standard library's affair.

* `Identifier` — a text that an identifier may be;
* `KeyRecord.toPayload`, `ExpiryChange.toPayload`, `RestrictionChange.toPayload` — what is stored;
* `KeyRecord.fromPayload`, `ExpiryChange.fromPayload`, `RestrictionChange.fromPayload` — what is read.
-/

namespace HypeLlm

def PriorityClass.asStr : PriorityClass → String
  | .interactive => "interactive"
  | .standard => "standard"
  | .batch => "batch"

def PriorityClass.parse (text : List Char) : Option PriorityClass :=
  if text = "interactive".toList then some .interactive
  else if text = "standard".toList then some .standard
  else if text = "batch".toList then some .batch
  else none

theorem PriorityClass.parse_eq_some_iff {text : List Char} {c : PriorityClass} :
    parse text = some c ↔ text = c.asStr.toList := by
  constructor
  · intro h
    rw [parse] at h
    split_ifs at h with h₁ h₂ h₃
    all_goals
      cases h
      assumption
  · rintro rfl
    cases c <;> rfl

namespace Auth.Stored

open HypeLlm.Json HypeLlm.Net List

/-! ### Identifiers -/

/-- An identifier of any kind. -/
structure Identifier where
  text : List Char
  valid : Admin.validate (String.ofList text) = true
  deriving Repr, DecidableEq

def Identifier.new (s : List Char) : Option Identifier :=
  if h : Admin.validate (String.ofList s) = true then some ⟨s, h⟩ else none

theorem Identifier.ext_text {i j : Identifier} (h : i.text = j.text) : i = j := by
  cases i
  cases j
  cases h
  rfl

theorem Identifier.new_eq_some_iff {s : List Char} {i : Identifier} : new s = some i ↔ s = i.text := by
  rw [new]
  constructor
  · intro h
    split at h
    · cases h
      rfl
    · cases h
  · rintro rfl
    exact dif_pos i.valid

theorem utf8ByteSize_ofList (s : List Char) :
    (String.ofList s).utf8ByteSize = (Utf8.encode s).length := by
  simp [String.utf8ByteSize, String.ofList, List.utf8Encode, Utf8.encode, Utf8.encodeChar]

theorem Identifier.length_text (i : Identifier) : (Utf8.encode i.text).length ≤ 128 := by
  have hvalid := i.valid
  rw [Admin.validate, Bool.and_eq_true, Bool.and_eq_true, decide_eq_true_iff, utf8ByteSize_ofList] at hvalid
  exact hvalid.1.2

/-- Identifiers are compared byte by byte. -/
def Identifier.bytes (i : Identifier) : List ℕ := (Utf8.encode i.text).map UInt8.toNat

theorem Identifier.bytes_injective : Function.Injective Identifier.bytes := by
  intro i j h
  exact ext_text (Utf8.encode_injective (map_injective_iff.2 (fun _ _ h => UInt8.toNat_inj.1 h) h))

instance : LinearOrder Identifier := LinearOrder.lift' Identifier.bytes Identifier.bytes_injective

/-! ### Digests -/

/-- A keyed digest of a secret. -/
structure Digest where
  bytes : List UInt8
  length_bytes : bytes.length = 32
  deriving Repr, DecidableEq

/-- Two hexadecimal digits for a byte, the high one first. -/
def hexEncode (data : List UInt8) : List Char :=
  data.flatMap fun byte => [hexChar (byte.toNat / 16), hexChar (byte.toNat % 16)]

/-- The bytes of pairs of digits. -/
def hexDecode : List UInt8 → Option (List UInt8)
  | [] => some []
  | high :: low :: rest => do
    let high ← hexDigit high
    let low ← hexDigit low
    let bytes ← hexDecode rest
    return UInt8.ofNat (16 * high + low) :: bytes
  | [_] => none

def Digest.toHex (d : Digest) : List Char := hexEncode d.bytes

def Digest.parseHex (s : List Char) : Option Digest := do
  let bytes ← hexDecode (Utf8.encode s)
  if h : bytes.length = 32 then some ⟨bytes, h⟩ else none

/-! ### Records -/

/-- What a key may be used for. -/
inductive Scope where
  | inference | embeddings | models | tokenize | managementRead | managementWrite
  deriving Repr, DecidableEq

namespace Scope

def asStr : Scope → String
  | inference => "inference"
  | embeddings => "embeddings"
  | models => "models"
  | tokenize => "tokenize"
  | managementRead => "management:read"
  | managementWrite => "management:write"

def all : List Scope := [inference, embeddings, models, tokenize, managementRead, managementWrite]

def parse (s : List Char) : Option Scope := all.find? fun x => x.asStr.toList = s

theorem parse_eq_some_iff {s : List Char} {x : Scope} : parse s = some x ↔ s = x.asStr.toList := by
  constructor
  · intro h
    exact (of_decide_eq_true (p := x.asStr.toList = s)
      (find?_some (p := fun x : Scope => decide (x.asStr.toList = s)) h)).symm
  · rintro rfl
    cases x <;> rfl

end Scope

/-- Where a key may be used from: networks are blocks of a prefix length. -/
inductive SourceRestriction where
  | any
  | addresses (list : List IpAddr)
  | networks (list : List (IpAddr × UInt8))
  deriving Repr, DecidableEq

def SourceRestriction.addrs : SourceRestriction → List IpAddr
  | .any => []
  | .addresses list => list
  | .networks list => list.map Prod.fst

/-- The highest bits of a width. -/
def highMask (width bits : ℕ) : ℕ :=
  if bits = 0 then 0 else (2 ^ width - 1) * 2 ^ (width - bits) % 2 ^ width

/-- Addresses of different families are in no common network. -/
def inNetwork : IpAddr → IpAddr → UInt8 → Bool
  | .v4 a, .v4 n, bits =>
    bits.toNat ≤ 32 ∧ a.toNat &&& highMask 32 bits.toNat = n.toNat &&& highMask 32 bits.toNat
  | .v6 a, .v6 n, bits =>
    bits.toNat ≤ 128 ∧ a.toNat &&& highMask 128 bits.toNat = n.toNat &&& highMask 128 bits.toNat
  | _, _, _ => false

/-- Whether a key may be used from an address.  A restriction cannot be evaluated on an unknown one. -/
def SourceRestriction.permits : SourceRestriction → Option IpAddr → Bool
  | .any, _ => true
  | .addresses list, addr => addr.any fun a => a ∈ list
  | .networks nets, addr => addr.any fun a => nets.any fun n => inNetwork a n.1 n.2

def maxRestrictionEntries : ℕ := 256

/-- What a key is limited to; an absent list is no limit. -/
structure KeyRestriction where
  models : Option (Finset Identifier)
  targets : Option (Finset Identifier)
  hosts : Option (Finset Identifier)
  priority : Option PriorityClass
  deriving DecidableEq

/-- A key that is not limited. -/
def KeyRestriction.default : KeyRestriction := ⟨none, none, none, none⟩

structure KeyRecord where
  id : Identifier
  verifier : Digest
  tenant : Identifier
  principal : Identifier
  scopes : List Scope
  expiresAtMillis : Option UInt64
  source : SourceRestriction
  createdAtMillis : UInt64
  description : Option (List Char)
  revoked : Bool
  createdBy : Option Identifier
  restrictions : KeyRestriction
  deriving DecidableEq

structure ExpiryChange where
  id : Identifier
  expiresAtMillis : Option UInt64
  deriving DecidableEq

structure RestrictionChange where
  id : Identifier
  restrictions : KeyRestriction
  deriving DecidableEq

/-! ### Writing -/

variable {F : Type}

def addressesToJson (display : IpAddr → List Char) (list : List IpAddr) : Value F :=
  .array (list.map fun a => .string (display a))

/-- The address, a slash and the length of the prefix. -/
def networkText (display : IpAddr → List Char) (network : IpAddr × UInt8) : List Char :=
  display network.1 ++ '/' :: Decimal.text 3 network.2.toNat

def sourceToJson (display : IpAddr → List Char) : SourceRestriction → Value F
  | .any => .object (Object.push [] "kind".toList (.string "any".toList))
  | .addresses list =>
    let o := Object.push [] "kind".toList (.string "addresses".toList)
    .object (Object.push o "values".toList (addressesToJson display list))
  | .networks list =>
    let o := Object.push [] "kind".toList (.string "networks".toList)
    .object (Object.push o "values".toList (.array (list.map fun n => .string (networkText display n))))

def KeyRecord.toJson (toFloat : UInt64 → F) (display : IpAddr → List Char) (r : KeyRecord) : Value F :=
  let o := Object.push [] "id".toList (.string r.id.text)
  let o := Object.push o "verifier".toList (.string r.verifier.toHex)
  let o := Object.push o "tenant".toList (.string r.tenant.text)
  let o := Object.push o "principal".toList (.string r.principal.text)
  let o := Object.push o "scopes".toList (.array (r.scopes.map fun s => .string s.asStr.toList))
  let o := Object.pushOpt o "expires_at_millis".toList (r.expiresAtMillis.map (.ofU64 toFloat))
  let o := Object.push o "source".toList (sourceToJson display r.source)
  let o := Object.push o "created_at_millis".toList (.ofU64 toFloat r.createdAtMillis)
  let o := Object.pushOpt o "description".toList (r.description.map .string)
  let o := Object.push o "revoked".toList (.bool r.revoked)
  .object (Object.pushOpt o "created_by".toList (r.createdBy.map fun p => .string p.text))

def ExpiryChange.toJson (toFloat : UInt64 → F) (c : ExpiryChange) : Value F :=
  let o := Object.push [] "id".toList (.string c.id.text)
  .object (Object.push o "expires_at_millis".toList
    (match c.expiresAtMillis with
      | some t => .ofU64 toFloat t
      | none => .null))

/-- The names of a set in their order; `null` for no list. -/
def namesToJson : Option (Finset Identifier) → Value F
  | none => .null
  | some items => .array ((items.sort (· ≤ ·)).map fun i => .string i.text)

def priorityToJson : Option PriorityClass → Value F
  | none => .null
  | some c => .string c.asStr.toList

def RestrictionChange.toJson (c : RestrictionChange) : Value F :=
  let o := Object.push [] "id".toList (.string c.id.text)
  let o := Object.push o "models".toList (namesToJson c.restrictions.models)
  let o := Object.push o "targets".toList (namesToJson c.restrictions.targets)
  let o := Object.push o "hosts".toList (namesToJson c.restrictions.hosts)
  .object (Object.push o "priority".toList (priorityToJson c.restrictions.priority))

/-! ### Reading -/

/-- The text before the first such character and the text after it. -/
def splitOnce (c : Char) (s : List Char) : Option (List Char × List Char) :=
  if c ∈ s then some (s.takeWhile (· ≠ c), (s.dropWhile (· ≠ c)).tail) else none

def parseAddress (s : List Char) : Option IpAddr := parseIp (Utf8.encode s)

/-- The length of a prefix, as the standard library reads a number of eight bits. -/
def parseBits (s : List Char) : Option UInt8 := (Decimal.parse 255 s).map UInt8.ofNat

def parseNetwork (s : List Char) : Option (IpAddr × UInt8) := do
  let (addr, bits) ← splitOnce '/' s
  return (← parseAddress addr, ← parseBits bits)

def sourceFromJson (value : Value F) : Option SourceRestriction := do
  let kind ← (← value.get "kind".toList).asStr
  if kind = "any".toList then some .any
  else if kind = "addresses".toList then do
    let list ← (← (← value.get "values".toList).asArray).mapM fun v => v.asStr.bind parseAddress
    return .addresses list
  else if kind = "networks".toList then do
    let list ← (← (← value.get "values".toList).asArray).mapM fun v => v.asStr.bind parseNetwork
    return .networks list
  else none

/-- Who made a key: what is present but unreadable drops the record. -/
def createdByFromJson : Option (Value F) → Option (Option Identifier)
  | none | some .null => some none
  | some v => (v.asStr.bind Identifier.new).map some

def KeyRecord.fromJson (value : Value F) : Option KeyRecord := do
  let id ← Identifier.new (← (← value.get "id".toList).asStr)
  let verifier ← Digest.parseHex (← (← value.get "verifier".toList).asStr)
  let tenant ← Identifier.new (← (← value.get "tenant".toList).asStr)
  let principal ← Identifier.new (← (← value.get "principal".toList).asStr)
  let scopes ← (← (← value.get "scopes".toList).asArray).mapM fun v => v.asStr.bind Scope.parse
  let source ← sourceFromJson (← value.get "source".toList)
  let createdAtMillis ← (← value.get "created_at_millis".toList).asU64
  let createdBy ← createdByFromJson (value.get "created_by".toList)
  return {
    id := id
    verifier := verifier
    tenant := tenant
    principal := principal
    scopes := scopes
    -- here, and of `revoked`, what is unreadable is taken for what is absent
    expiresAtMillis := ((value.get "expires_at_millis".toList).bind Value.asU64).map UInt64.ofNat
    source := source
    createdAtMillis := UInt64.ofNat createdAtMillis
    description := (value.get "description".toList).bind Value.asStr
    revoked := ((value.get "revoked".toList).bind Value.asBool).getD false
    createdBy := createdBy
    restrictions := .default }

def expiryFromJson : Value F → Option (Option UInt64)
  | .null => some none
  | other => other.asU64.map fun t => some (UInt64.ofNat t)

def ExpiryChange.fromJson (value : Value F) : Option ExpiryChange := do
  let expiresAtMillis ← expiryFromJson (← value.get "expires_at_millis".toList)
  let id ← Identifier.new (← (← value.get "id".toList).asStr)
  return ⟨id, expiresAtMillis⟩

/-- No list, or from 1 to 256 names, none of them twice. -/
def namesFromJson : Value F → Option (Option (Finset Identifier))
  | .null => some none
  | .array items =>
    if items = [] ∨ maxRestrictionEntries < items.length then none
    else do
      let names ← items.mapM fun item => item.asStr.bind Identifier.new
      let set := names.toFinset
      if set.card = items.length then some (some set) else none
  | _ => none

def priorityFromJson : Value F → Option (Option PriorityClass)
  | .null => some none
  | other => (other.asStr.bind PriorityClass.parse).map some

def RestrictionChange.fromJson (value : Value F) : Option RestrictionChange := do
  let priority ← priorityFromJson (← value.get "priority".toList)
  let id ← Identifier.new (← (← value.get "id".toList).asStr)
  let models ← namesFromJson (← value.get "models".toList)
  let targets ← namesFromJson (← value.get "targets".toList)
  let hosts ← namesFromJson (← value.get "hosts".toList)
  return ⟨id, ⟨models, targets, hosts, priority⟩⟩

/-! ### Payloads -/

/-- The text of a value, as the log keeps it. -/
def written (floats : FloatText F) (value : Value F) : List UInt8 :=
  Utf8.encode (Json.toString floats value)

/-- A payload that does not parse is of no record. -/
def reading {α : Type} (floats : FloatText F) (fromJson : Value F → Option α) (payload : List UInt8) :
    Option α :=
  match Json.parse floats .small payload with
  | .ok value => fromJson value
  | .error _ => none

section

variable (floats : FloatText F) (toFloat : UInt64 → F) (display : IpAddr → List Char)

def KeyRecord.toPayload (r : KeyRecord) : List UInt8 := written floats (r.toJson toFloat display)

def KeyRecord.fromPayload (payload : List UInt8) : Option KeyRecord := reading floats fromJson payload

def ExpiryChange.toPayload (c : ExpiryChange) : List UInt8 := written floats (c.toJson toFloat)

def ExpiryChange.fromPayload (payload : List UInt8) : Option ExpiryChange :=
  reading floats fromJson payload

def RestrictionChange.toPayload (c : RestrictionChange) : List UInt8 := written floats c.toJson

def RestrictionChange.fromPayload (payload : List UInt8) : Option RestrictionChange :=
  reading floats fromJson payload

end

end Auth.Stored

end HypeLlm
