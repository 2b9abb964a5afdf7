import HypeLlm.Ids
import HypeLlm.Json.RoundTrip
import HypeLlm.Lib.Maps
import HypeLlm.Lib.Words

/-!
# Policy drafts and their records

A draft is a configuration text that somebody proposed.  What was authored goes to the log: the
identifier, the text, the author, the tenant, who is accountable for the author, and the time.  What a
validation found does not: a draft read back from the log is not validated.

* `fromPayload_toPayload` — a record that the parser accepts is read back as the draft it was written
  for, not validated;
* `parseDraftId_draftId` — the number of an identifier is found again in it.
-/

namespace HypeLlm.Admin

open HypeLlm.Words

/-! ### Identifiers -/

def maxIdLen : ℕ := 128

/-- The alphabet and the length of an identifier. -/
def validate (s : String) : Bool :=
  !s.isEmpty && decide (s.utf8ByteSize ≤ maxIdLen) &&
    s.toList.all fun c => c.isAlphanum || ['.', '_', '-', ':'].contains c

/-- An identifier that was validated when it was made. -/
abbrev Id := {s : String // validate s = true}

def Id.new (s : String) : Option Id := if h : validate s = true then some ⟨s, h⟩ else none

@[simp] theorem Id.new_val (i : Id) : Id.new i.1 = some i := dif_pos i.2

/-! ### Drafts -/

/-- What was authored of a draft. -/
structure Authored where
  id : String
  text : String
  author : Id
  /-- The tenant it was proposed in. -/
  tenant : Id
  /-- The principal that minted the key, when the author was a key. -/
  authorAccountable : Option Id
  createdAtMillis : ℕ
  deriving DecidableEq

/-- A draft, with what the last validation found. -/
structure Draft (E D : Type) extends Authored where
  digest : Option D
  errors : List E
  validated : Bool
  deriving DecidableEq

variable {E D F : Type}

/-- The draft as it is created. -/
def Authored.unvalidated (a : Authored) : Draft E D := ⟨a, none, [], false⟩

/-! ### The record of a draft -/

/-- How numbers above the range of signed integers are carried in JSON: as floats, which are printed
and read exactly. -/
structure Wire (F : Type) where
  floats : Json.FloatText F
  asFloat : ℕ → F
  exact : ∀ n, floats.Exact (asFloat n)

namespace Wire

variable (wire : Wire F)

/-- An unsigned number of 64 bits as a value. -/
def fromU64 (n : ℕ) : Json.Value F :=
  if n < 2 ^ 63 then .number (.int (Int64.ofNat n)) else .number (.float (wire.asFloat n))

def string (s : String) : Json.Value F := .string s.toList

/-- The members of the record, in the order they are written. -/
def members (a : Authored) : List (List Char × Json.Value F) :=
  [("id".toList, string a.id), ("text".toList, string a.text), ("author".toList, string a.author.1),
    ("tenant".toList, string a.tenant.1)] ++
  (a.authorAccountable.map fun p => ("author_accountable".toList, string p.1)).toList ++
  [("created_at".toList, wire.fromU64 a.createdAtMillis)]

def toPayload (a : Authored) : List UInt8 :=
  Utf8.encode (Json.toString wire.floats (.object (wire.members a)))

/-- The member under a key. -/
def get (key : String) : Json.Value F → Option (Json.Value F)
  | .object entries => (entries.find? fun e => e.1 = key.toList).map Prod.snd
  | _ => none

/-- A member that is there and not null. -/
def getPresent (key : String) (v : Json.Value F) : Option (Json.Value F) :=
  match get key v with
  | some .null => none
  | other => other

def fieldStr (key : String) (v : Json.Value F) : Option String :=
  match get key v with
  | some (.string s) => some (String.ofList s)
  | _ => none

/-- A string, or nothing where it is absent; it fails on any other value. -/
def optFieldStr (key : String) (v : Json.Value F) : Option (Option String) :=
  match getPresent key v with
  | none => some none
  | some (.string s) => some (some (String.ofList s))
  | some _ => none

def optFieldI64 (key : String) (v : Json.Value F) : Option (Option Int64) :=
  match getPresent key v with
  | none => some none
  | some (.number (.int i)) => some (some i)
  | some _ => none

/-- The creation time of a record: zero where there is none, or none that fits. -/
def createdAt (v : Json.Value F) : ℕ :=
  match (optFieldI64 "created_at" v).join with
  | some i => i.toInt.toNat
  | none => 0

/-- Who is accountable: absent is nobody, anything but an identifier is a damaged record. -/
def accountable (v : Json.Value F) : Option (Option Id) :=
  match optFieldStr "author_accountable" v with
  | none => none
  | some none => some none
  | some (some text) => (Id.new text).map some

def fromValue (v : Json.Value F) : Option (Draft E D) := do
  let id ← fieldStr "id" v
  let text ← fieldStr "text" v
  let author ← (fieldStr "author" v).bind Id.new
  let tenant ← (fieldStr "tenant" v).bind Id.new
  let accountable ← accountable v
  return Authored.unvalidated ⟨id, text, author, tenant, accountable, createdAt v⟩

/-- A record that does not decode gives no draft. -/
def fromPayload (payload : List UInt8) : Option (Draft E D) :=
  (Json.parse wire.floats .default payload).toOption.bind fromValue

/-- The parser accepts the record of the draft. -/
def Accepts (a : Authored) : Prop :=
  (Json.parse wire.floats .default (wire.toPayload a)).isOk = true

instance (a : Authored) : Decidable (wire.Accepts a) := inferInstanceAs (Decidable (_ = _))

/-- What is authored, as it is read back: a time beyond the signed range is not kept. -/
def recorded (a : Authored) : Authored :=
  { a with createdAtMillis := if a.createdAtMillis < 2 ^ 63 then a.createdAtMillis else 0 }

end Wire

namespace Wire

variable (wire : Wire F)

theorem get_cons (key k : String) (v : Json.Value F) (entries : List (List Char × Json.Value F)) :
    get key (.object ((k.toList, v) :: entries)) = if k = key then some v else get key (.object entries) := by
  rw [get, List.find?_cons]
  by_cases h : k = key
  · simp [h]
  · simp only [String.toList_inj, h, decide_false, if_false]
    rfl

theorem accountable_members (a : Authored) :
    accountable (.object (wire.members a)) = some a.authorAccountable := by
  cases hp : a.authorAccountable with
  | none =>
    simp only [accountable, optFieldStr, getPresent, members, hp, Option.map_none, Option.toList_none,
      List.append_nil, List.cons_append, List.nil_append, get_cons, String.reduceEq, if_false]
    rfl
  | some p =>
    simp only [accountable, optFieldStr, getPresent, members, hp, Option.map_some, Option.toList_some,
      List.cons_append, List.nil_append, get_cons, String.reduceEq, if_false, if_true, string,
      String.ofList_toList, Id.new_val]

theorem get_createdAt (a : Authored) :
    get "created_at" (.object (wire.members a)) = some (wire.fromU64 a.createdAtMillis) := by
  cases hp : a.authorAccountable with
  | none =>
    simp only [members, hp, Option.map_none, Option.toList_none, List.append_nil, List.cons_append,
      List.nil_append, get_cons, String.reduceEq, if_false, if_true]
  | some p =>
    simp only [members, hp, Option.map_some, Option.toList_some, List.cons_append, List.nil_append,
      get_cons, String.reduceEq, if_false, if_true]

theorem createdAt_members (a : Authored) :
    createdAt (.object (wire.members a)) = (recorded a).createdAtMillis := by
  rw [createdAt, optFieldI64, getPresent, get_createdAt, recorded, fromU64]
  by_cases hlt : a.createdAtMillis < 2 ^ 63
  · have htime : (Int64.ofNat a.createdAtMillis).toInt = a.createdAtMillis := Int64.toInt_ofNat_of_lt hlt
    simp only [if_pos hlt, Option.join_some, htime, Int.toNat_natCast]
  · simp only [if_neg hlt, Option.join_none]

theorem fieldStr_members (a : Authored) :
    fieldStr "id" (.object (wire.members a)) = some a.id ∧
    fieldStr "text" (.object (wire.members a)) = some a.text ∧
    fieldStr "author" (.object (wire.members a)) = some a.author.1 ∧
    fieldStr "tenant" (.object (wire.members a)) = some a.tenant.1 := by
  refine ⟨?_, ?_, ?_, ?_⟩ <;>
  simp only [fieldStr, members, List.cons_append, List.nil_append, get_cons, String.reduceEq, if_false,
    if_true, string, String.ofList_toList]

theorem fromValue_members (a : Authored) :
    fromValue (.object (wire.members a)) = some ((recorded a).unvalidated : Draft E D) := by
  obtain ⟨hid, htext, hauthor, htenant⟩ := wire.fieldStr_members a
  simp only [fromValue, hid, htext, hauthor, htenant, accountable_members, createdAt_members,
    Option.bind_some, Option.bind_eq_bind, Id.new_val]
  rfl

/-- No float stands in a record but that of a time beyond the signed range. -/
theorem members_printable (a : Authored) :
    (Json.Value.object (wire.members a)).Printable wire.floats := by
  intro f hf
  cases hf with
  | member he hin =>
    rename_i e
    have hvalue : (∃ s, e.2 = .string s) ∨ e.2 = wire.fromU64 a.createdAtMillis := by
      rw [members, List.mem_append, List.mem_append] at he
      rcases he with (he | he) | he
      · left
        fin_cases he <;> exact ⟨_, rfl⟩
      · left
        obtain ⟨p, -, rfl⟩ := Option.map_eq_some_iff.1 (Option.mem_toList.1 he)
        exact ⟨_, rfl⟩
      · right
        obtain rfl := List.mem_singleton.1 he
        rfl
    rcases hvalue with ⟨s, hs⟩ | hnumber
    · rw [hs] at hin
      cases hin
    · rw [hnumber, fromU64] at hin
      split at hin
      · cases hin
      · cases hin
        exact wire.exact _

/-- **Records are read back.**  The record that the parser accepts gives the draft as it was authored,
not validated. -/
theorem fromPayload_toPayload {a : Authored} (h : wire.Accepts a) :
    wire.fromPayload (wire.toPayload a) = some ((recorded a).unvalidated : Draft E D) := by
  have hgives : Json.Gives _ (Json.parse wire.floats .default (wire.toPayload a)) _ :=
    Json.parse_gives (wire.members_printable a)
  rcases hgives with hok | ⟨-, e, herror⟩
  · rw [fromPayload, hok]
    exact wire.fromValue_members a
  · rw [Accepts, herror] at h
    cases h

/-- One record is not the record of two drafts. -/
theorem recorded_of_toPayload {a b : Authored} (ha : wire.Accepts a) (h : wire.toPayload a = wire.toPayload b) :
    wire.Accepts b ∧ recorded a = recorded b := by
  have hb : wire.Accepts b := by
    rw [Accepts, ← h]
    exact ha
  have hread := wire.fromPayload_toPayload (E := Unit) (D := Unit) ha
  rw [h, wire.fromPayload_toPayload hb] at hread
  have hsame := congrArg Draft.toAuthored (Option.some.inj hread)
  exact ⟨hb, hsame.symm⟩

end Wire

/-! ### Numbers in identifiers -/

def draftId (n : ℕ) : String := String.ofList ("draft_".toList ++ Decimal.text 20 n)

/-- The number after `draft_`, where there is one. -/
def parseDraftId (id : String) : Option ℕ :=
  if "draft_".toList <+: id.toList then Decimal.parse u64Max (id.toList.drop 6) else none

theorem parseDraftId_draftId {n : ℕ} (h : n ≤ u64Max) : parseDraftId (draftId n) = some n := by
  have hfuel : n < 10 ^ 20 := lt_of_le_of_lt h (by decide)
  have hlist : (draftId n).toList = "draft_".toList ++ Decimal.text 20 n := String.toList_ofList
  rw [parseDraftId, hlist, if_pos (List.prefix_append _ _)]
  exact Decimal.parse_text (by decide) hfuel h

theorem draftId_inj {m n : ℕ} (hm : m ≤ u64Max) (hn : n ≤ u64Max) (h : draftId m = draftId n) :
    m = n := by
  have hparse := parseDraftId_draftId hm
  rw [h, parseDraftId_draftId hn] at hparse
  exact (Option.some.inj hparse).symm

end HypeLlm.Admin
