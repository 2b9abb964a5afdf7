import HypeLlm.Lib.Decimal
import HypeLlm.Lib.Sorting
import HypeLlm.Lib.Utf8

/-!
# JSON values and their text

An object is a list of members in the order they were put in, and nothing keeps two of them from
having one key.  Integers are exact; a number with a fraction or an exponent is a machine float,
which the standard library prints and reads.

* `toString` — the text, members in their order;
* `toCanonicalString` — the text with the members of every object sorted by key.
-/

namespace HypeLlm.Json

open List

/-! ### Values -/

/-- How the standard library prints and reads machine floats. -/
structure FloatText (F : Type) where
  /-- The shortest text that is read back. -/
  debug : F → List Char
  parse : List Char → Option F
  isFinite : F → Bool

variable {F : Type}

inductive Number (F : Type) where
  /-- An integer of 64 bits. -/
  | int (i : Int64)
  | float (f : F)

inductive Value (F : Type) where
  | null
  | bool (b : Bool)
  | number (n : Number F)
  | string (s : List Char)
  | array (items : List (Value F))
  /-- The members, in the order they were put in. -/
  | object (entries : List (List Char × Value F))

namespace Value

/-- What holds of the scalars, and of a structure when it holds of all that is in it, holds of every
value. -/
@[elab_as_elim]
theorem induct {motive : Value F → Prop} (null : motive .null) (bool : ∀ b, motive (.bool b))
    (number : ∀ n, motive (.number n)) (string : ∀ s, motive (.string s))
    (array : ∀ items : List (Value F), (∀ v ∈ items, motive v) → motive (.array items))
    (object : ∀ entries : List (List Char × Value F), (∀ e ∈ entries, motive e.2) →
      motive (.object entries)) (v : Value F) : motive v := by
  refine @Value.rec F motive (fun items => ∀ v ∈ items, motive v)
    (fun entries => ∀ e ∈ entries, motive e.2) (fun e => motive e.2)
    null bool number string array object ?_ ?_ ?_ ?_ ?_ v
  · intro v hv
    cases hv
  · intro v items hv hitems w hw
    rcases mem_cons.1 hw with rfl | hw
    · exact hv
    · exact hitems w hw
  · intro e he
    cases he
  · intro e entries he hentries x hx
    rcases mem_cons.1 hx with rfl | hx
    · exact he
    · exact hentries x hx
  · intro key v hv
    exact hv

/-! ### Access -/

/-- What an object holds under a key; of two members with the key, the first. -/
def get (v : Value F) (key : List Char) : Option (Value F) :=
  match v with
  | .object entries => (entries.find? fun e => e.1 = key).map Prod.snd
  | _ => none

def asStr : Value F → Option (List Char)
  | .string s => some s
  | _ => none

def asBool : Value F → Option Bool
  | .bool b => some b
  | _ => none

def asArray : Value F → Option (List (Value F))
  | .array items => some items
  | _ => none

/-- What an object holds under a key; an explicit `null` is as good as nothing. -/
def getPresent (v : Value F) (key : List Char) : Option (Value F) :=
  match v.get key with
  | some .null | none => none
  | some value => some value

/-- An integer that is not negative; a float is no integer. -/
def asU64 : Value F → Option ℕ
  | .number (.int i) => if 0 ≤ i.toInt then some i.toInt.toNat else none
  | _ => none

def asI64 : Value F → Option Int64
  | .number (.int i) => some i
  | _ => none

/-! ### Fields of a kind -/

def typeName : Value F → String
  | null => "null"
  | bool _ => "boolean"
  | number _ => "number"
  | string _ => "string"
  | array _ => "array"
  | object _ => "object"

/-- A field that is not what it has to be. -/
structure TypeError where
  path : List Char
  expected : String
  found : String
  deriving Repr, DecidableEq

/-- A field that has to be there. -/
def field {α : Type} (expected : String) (read : Value F → Option α) (v : Value F) (key : List Char) :
    Except TypeError α :=
  match v.get key with
  | none => .error ⟨key, expected, "missing"⟩
  | some x =>
    match read x with
    | some a => .ok a
    | none => .error ⟨key, expected, x.typeName⟩

/-- A field that may be absent or `null`. -/
def optField {α : Type} (expected : String) (read : Value F → Option α) (v : Value F)
    (key : List Char) : Except TypeError (Option α) :=
  match v.getPresent key with
  | none => .ok none
  | some x =>
    match read x with
    | some a => .ok (some a)
    | none => .error ⟨key, expected, x.typeName⟩

def fieldStr : Value F → List Char → Except TypeError (List Char) := field "string" asStr

def optFieldStr : Value F → List Char → Except TypeError (Option (List Char)) := optField "string" asStr

def optFieldI64 : Value F → List Char → Except TypeError (Option Int64) := optField "integer" asI64

def optFieldArray : Value F → List Char → Except TypeError (Option (List (Value F))) :=
  optField "array" asArray

/-! ### Sorting keys -/

/-- Keys are compared byte by byte. -/
def keyLe (a b : List Char) : Prop :=
  (Utf8.encode a).map UInt8.toNat ≤ (Utf8.encode b).map UInt8.toNat

instance : DecidableRel keyLe := fun _ _ => inferInstanceAs (Decidable (_ ≤ _))

/-- Members are compared by their keys. -/
def entryLe (a b : List Char × Value F) : Prop := keyLe a.1 b.1

instance : DecidableRel (entryLe (F := F)) := fun a b => inferInstanceAs (Decidable (keyLe a.1 b.1))

/-- Members are sorted by their keys, equal ones in the order they had. -/
def sortEntries (entries : List (List Char × Value F)) : List (List Char × Value F) :=
  entries.insertionSort entryLe

mutual

/-- Sort the members of every object. -/
def sortKeys : Value F → Value F
  | .array items => .array (sortItems items)
  | .object entries => .object (sortEntries (sortMembers entries))
  | .null => .null
  | .bool b => .bool b
  | .number n => .number n
  | .string s => .string s

def sortItems : List (Value F) → List (Value F)
  | [] => []
  | v :: items => sortKeys v :: sortItems items

def sortMembers : List (List Char × Value F) → List (List Char × Value F)
  | [] => []
  | (key, v) :: entries => (key, sortKeys v) :: sortMembers entries

end

theorem sortItems_eq (items : List (Value F)) : sortItems items = items.map sortKeys := by
  induction items with
  | nil => rfl
  | cons v items ih => rw [sortItems, ih, map_cons]

theorem sortMembers_eq (entries : List (List Char × Value F)) :
    sortMembers entries = entries.map fun e => (e.1, sortKeys e.2) := by
  induction entries with
  | nil => rfl
  | cons e entries ih => rw [sortMembers, ih, map_cons]

theorem sortEntries_perm (entries : List (List Char × Value F)) :
    (sortEntries entries).Perm entries := perm_insertionSort _ _

/-- What a member holds is not looked at, so it may be changed before or after. -/
theorem sortEntries_map (f : Value F → Value F) (entries : List (List Char × Value F)) :
    sortEntries (entries.map fun e => (e.1, f e.2)) =
      (sortEntries entries).map fun e => (e.1, f e.2) := by
  refine (map_insertionSort entryLe entryLe (fun e => (e.1, f e.2)) entries ?_).symm
  intro a _ b _
  exact Iff.rfl

/-- The members are sorted and what they hold is sorted. -/
theorem sortKeys_object (entries : List (List Char × Value F)) :
    sortKeys (.object entries) = .object ((sortEntries entries).map fun e => (e.1, sortKeys e.2)) := by
  rw [sortKeys, sortMembers_eq, sortEntries_map]

theorem sortKeys_array (items : List (Value F)) :
    sortKeys (.array items) = .array (items.map sortKeys) := by
  rw [sortKeys, sortItems_eq]

end Value

/-! ### The text of a value -/

/-- A hexadecimal digit, in lower case. -/
def hexChar (d : ℕ) : Char := if d < 10 then Char.ofNat (48 + d) else Char.ofNat (87 + d)

/-- Four hexadecimal digits, the highest first. -/
def hex4 (v : ℕ) : List Char := [12, 8, 4, 0].map fun shift => hexChar (v / 2 ^ shift % 16)

/-- A character inside quotes.  The two separators end a line for some readers. -/
def escapeChar (c : Char) : List Char :=
  if c = '"' then ['\\', '"']
  else if c = '\\' then ['\\', '\\']
  else if c = '\n' then ['\\', 'n']
  else if c = '\r' then ['\\', 'r']
  else if c = '\t' then ['\\', 't']
  else if c = Char.ofNat 0x08 then ['\\', 'b']
  else if c = Char.ofNat 0x0C then ['\\', 'f']
  else if c.toNat < 0x20 then '\\' :: 'u' :: hex4 c.toNat
  else if c = Char.ofNat 0x2028 then ['\\', 'u', '2', '0', '2', '8']
  else if c = Char.ofNat 0x2029 then ['\\', 'u', '2', '0', '2', '9']
  else [c]

/-- A text inside quotes. -/
def escape (s : List Char) : List Char := s.flatMap escapeChar

def writeString (s : List Char) : List Char := ['"'] ++ escape s ++ ['"']

/-- An integer in decimal. -/
def itoa (i : Int64) : List Char :=
  if i.toInt = 0 then ['0']
  else (if i.toInt < 0 then ['-'] else []) ++ (Decimal.digits 20 i.toInt.natAbs).map Decimal.digitChar

/-- The text of `null`, of `true` and of `false`. -/
def nullText : List Char := ['n', 'u', 'l', 'l']

def trueText : List Char := ['t', 'r', 'u', 'e']

def falseText : List Char := ['f', 'a', 'l', 's', 'e']

/-- A float that is not finite has no text of its own. -/
def writeNumber (floats : FloatText F) : Number F → List Char
  | .int i => itoa i
  | .float f => if floats.isFinite f then floats.debug f else nullText

mutual

def writeValue (floats : FloatText F) : Value F → List Char
  | .null => nullText
  | .bool true => trueText
  | .bool false => falseText
  | .number n => writeNumber floats n
  | .string s => writeString s
  | .array items => ['['] ++ writeItems floats 0 items ++ [']']
  | .object entries => ['{'] ++ writeEntries floats 0 entries ++ ['}']

/-- The items of an array from the `i`th on, a comma before each but the first. -/
def writeItems (floats : FloatText F) (i : ℕ) : List (Value F) → List Char
  | [] => []
  | v :: items =>
    (if 0 < i then [','] else []) ++ writeValue floats v ++ writeItems floats (i + 1) items

/-- The members of an object from the `i`th on, a comma before each but the first. -/
def writeEntries (floats : FloatText F) (i : ℕ) : List (List Char × Value F) → List Char
  | [] => []
  | (key, v) :: entries =>
    (if 0 < i then [','] else []) ++ writeString key ++ [':'] ++ writeValue floats v ++
      writeEntries floats (i + 1) entries

end

/-- The text of a value. -/
def toString (floats : FloatText F) (v : Value F) : List Char := writeValue floats v

/-- The text of a value with all keys sorted. -/
def toCanonicalString (floats : FloatText F) (v : Value F) : List Char :=
  toString floats v.sortKeys

end HypeLlm.Json
