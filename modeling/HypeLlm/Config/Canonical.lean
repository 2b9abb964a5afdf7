import HypeLlm.Config.Joining
import HypeLlm.Http.Message
import HypeLlm.Lib.Lists
import HypeLlm.Lib.Results
import HypeLlm.Lib.Sorting

/-!
# The canonical text of a configuration

Fields are sorted by name and records by kind, identity and fields; a value is quoted where it has to be.
The writer decides that on white space, which is more than the blanks that the reader cuts at, and the
canonical text of a configuration is one of its layouts.

* `parse_sound` — what is parsed keeps to the limits on values, fields and records;
* `canonicalLayout_text`, `canonicalLayout_writes` — the canonical text as a layout;
* **`canonical_outcome`** — it is parsed as the records it was made of, if these keep to the limits;
* **`canonical_form`** — it is read back, it is its own canonical text, and it differs exactly where the
  configuration does.
-/

namespace HypeLlm.Config

open List HypeLlm.Words
open HypeLlm.Http (isWhiteSpace)
open HypeLlm.Results (bind_eq_ok)

/-! ### The writer -/

def needsQuotes (value : List Char) : Bool :=
  value.isEmpty || value.any fun c => isWhiteSpace c || c = '"' || c = '\\' || c = '#' || isControl c

def hexDigits : List Char := ['0', '1', '2', '3', '4', '5', '6', '7', '8', '9', 'a', 'b', 'c', 'd', 'e', 'f']

/-- A number below 65536 in four digits. -/
def hex4 (n : ℕ) : List Char :=
  [hexDigits.getD (n / 4096 % 16) '0', hexDigits.getD (n / 256 % 16) '0', hexDigits.getD (n / 16 % 16) '0',
    hexDigits.getD (n % 16) '0']

def escapeChar (c : Char) : List Char :=
  if c = '"' then ['\\', '"']
  else if c = '\\' then ['\\', '\\']
  else if c = '\n' then ['\\', 'n']
  else if c = '\r' then ['\\', 'r']
  else if c = '\t' then ['\\', 't']
  else if isControl c then '\\' :: 'u' :: hex4 c.toNat
  else [c]

/-- Quote a value if it cannot be written bare. -/
def quoteIfNeeded (value : List Char) : List Char :=
  if needsQuotes value then '"' :: (value.flatMap escapeChar ++ ['"']) else value

def identity (r : Record) : String := (r.get "id").getD ""

/-- Fields are sorted by name. -/
def fieldLe (a b : String × String) : Prop := a.1 ≤ b.1

instance : DecidableRel fieldLe := fun a b => inferInstanceAs (Decidable (a.1 ≤ b.1))

instance : Std.Total fieldLe := ⟨fun a b => le_total a.1 b.1⟩

instance : IsTrans (String × String) fieldLe := ⟨fun _ _ _ hab hbc => String.le_trans hab hbc⟩

def Record.sorted (r : Record) : Record := { r with fields := r.fields.insertionSort fieldLe }

/-- Records are sorted by kind, then by identity, then by fields. -/
def sortKey (r : Record) : String ×ₗ String ×ₗ List (String ×ₗ String) :=
  toLex (r.kind, toLex (identity r, r.fields.map toLex))

def recordLe (a b : Record) : Prop := sortKey a ≤ sortKey b

instance : DecidableRel recordLe := fun a b => inferInstanceAs (Decidable (sortKey a ≤ sortKey b))

/-- The records, each with its fields sorted, sorted. -/
def Document.canonicalRecords (d : Document) : List Record :=
  (d.records.map Record.sorted).insertionSort recordLe

def Record.line (r : Record) : List Char :=
  r.kind.toList ++ r.fields.flatMap (fun field => ' ' :: (field.1.toList ++ '=' :: quoteIfNeeded field.2.toList))

def Document.toCanonical (d : Document) : List Char :=
  d.canonicalRecords.flatMap fun r => r.line ++ ['\n']

/-! ### What was parsed keeps to the limits -/

/-- A record that was parsed. -/
structure Record.Parsed (limits : ParseLimits) (r : Record) : Prop where
  proper : r.entry.Proper
  kind : byteLen r.kind.toList ≤ limits.maxValueBytes
  values : ∀ field ∈ r.fields, byteLen (fieldText field) ≤ limits.maxValueBytes
  fields : r.fields.length ≤ limits.maxFieldsPerRecord

variable {limits : ParseLimits}

theorem tokensLoop_sound {lineNo fuel col : ℕ} {rest : List Char} {acc tokens : List (List Char × ℕ)}
    (hacc : ∀ t ∈ acc, byteLen t.1 ≤ limits.maxValueBytes)
    (h : tokensLoop limits lineNo fuel rest col acc = .ok tokens) :
    ∀ t ∈ tokens, byteLen t.1 ≤ limits.maxValueBytes := by
  induction fuel generalizing rest col acc with
  | zero =>
    cases h
    exact hacc
  | succ fuel ih =>
    rw [tokensLoop] at h
    split at h
    · cases h
      exact hacc
    · split at h
      · cases h
        exact hacc
      · obtain ⟨⟨token, after, next⟩, -, h⟩ := bind_eq_ok h
        dsimp only at h
        split at h
        · cases h
        · rename_i hlen
          refine ih (fun t ht => ?_) h
          obtain ht | ht := mem_append.1 ht
          · exact hacc t ht
          · obtain rfl := mem_singleton.1 ht
            exact Nat.le_of_not_lt hlen

theorem takeWhile_append_eq {token : List Char} (h : '=' ∈ token) :
    token.takeWhile (· ≠ '=') ++ '=' :: (token.dropWhile (· ≠ '=')).drop 1 = token := by
  have hne : token.dropWhile (· ≠ '=') ≠ [] := fun hnil => by
    have hall := dropWhile_eq_nil_iff.1 hnil '=' h
    simp at hall
  obtain ⟨c, rest, hcons⟩ := exists_cons_of_ne_nil hne
  have hc : c = '=' := by
    have hhead := head_dropWhile_not (· ≠ '=') hne
    simp only [hcons, head_cons] at hhead
    simpa using hhead
  have hsplit := takeWhile_append_dropWhile (p := (· ≠ '=')) (l := token)
  rw [hcons, hc] at hsplit ⊢
  exact hsplit

theorem fieldsLoop_sound {lineNo : ℕ} {tokens : List (List Char × ℕ)} {fields : List (String × String)}
    (acc : List (String × String)) (hkeys : ∀ field ∈ acc, isIdentifier field.1 = true)
    (hdistinct : (acc.map (·.1)).Nodup)
    (h : fieldsLoop lineNo tokens acc = .ok fields) :
    fields.map fieldText = acc.map fieldText ++ tokens.map (·.1) ∧
      (∀ field ∈ fields, isIdentifier field.1 = true) ∧ (fields.map (·.1)).Nodup := by
  induction tokens generalizing acc with
  | nil =>
    cases h
    exact ⟨(append_nil _).symm, hkeys, hdistinct⟩
  | cons token tokens ih =>
    obtain ⟨token, col⟩ := token
    rw [fieldsLoop] at h
    split at h
    · cases h
    · rename_i hassigned
      dsimp only at h
      split at h
      · cases h
      · rename_i hkey
        split at h
        · cases h
        · rename_i hfresh
          rw [not_not] at hassigned hkey
          have htext : fieldText (String.ofList (token.takeWhile (· ≠ '=')),
              String.ofList ((token.dropWhile (· ≠ '=')).drop 1)) = token := by
            rw [fieldText, String.toList_ofList, String.toList_ofList, takeWhile_append_eq hassigned]
          have hkeys' : ∀ field ∈ acc ++ [(String.ofList (token.takeWhile (· ≠ '=')),
              String.ofList ((token.dropWhile (· ≠ '=')).drop 1))], isIdentifier field.1 = true := by
            intro field hfield
            obtain hfield | hfield := mem_append.1 hfield
            · exact hkeys field hfield
            · obtain rfl := mem_singleton.1 hfield
              exact hkey
          have hdistinct' : ((acc ++ [(String.ofList (token.takeWhile (· ≠ '=')),
              String.ofList ((token.dropWhile (· ≠ '=')).drop 1))]).map (·.1)).Nodup := by
            rw [map_append, nodup_append]
            refine ⟨hdistinct, nodup_singleton _, fun k hk k' hk' hsame => hfresh ?_⟩
            obtain ⟨field, hfield, rfl⟩ := mem_map.1 hk
            obtain rfl := mem_singleton.1 hk'
            exact any_eq_true.2 ⟨field, hfield, decide_eq_true hsame⟩
          obtain ⟨hfields, hall⟩ := ih _ hkeys' hdistinct' h
          refine ⟨?_, hall⟩
          rw [hfields, map_append, map_singleton, htext, append_assoc]
          rfl

theorem recordOf_sound {lineNo : ℕ} {tokens : List (List Char × ℕ)} {r : Record}
    (htokens : ∀ t ∈ tokens, byteLen t.1 ≤ limits.maxValueBytes)
    (h : recordOf limits lineNo tokens = .ok (some r)) : r.Parsed limits := by
  cases tokens with
  | nil => cases h
  | cons kind tokens =>
    obtain ⟨kind, col⟩ := kind
    rw [recordOf] at h
    split at h
    · cases h
    · split at h
      · cases h
      · rename_i hkind
        split at h
        · cases h
        · rename_i hcount
          obtain ⟨fields, hfields, h⟩ := bind_eq_ok h
          cases h
          obtain ⟨htexts, hkeys, hdistinct⟩ := fieldsLoop_sound [] (fun _ he => by cases he) nodup_nil hfields
          have hlen := congrArg length htexts
          rw [length_map, map_nil, nil_append, length_map] at hlen
          refine ⟨⟨not_not.1 hkind, hkeys, hdistinct⟩, ?_, fun field hfield => ?_, ?_⟩
          · rw [String.toList_ofList]
            exact htokens _ mem_cons_self
          · have hmem : fieldText field ∈ fields.map fieldText := mem_map_of_mem hfield
            rw [htexts] at hmem
            obtain ⟨t, ht, hsame⟩ := mem_map.1 hmem
            rw [← hsame]
            exact htokens t (mem_cons_of_mem _ ht)
          · rw [hlen]
            exact Nat.le_of_not_lt hcount

theorem linesLoop_sound {lines : List (List Char)} {index : ℕ} {pending : Pending} {records rs : List Record}
    (hrecords : ∀ r ∈ records, r.Parsed limits) (hcount : records.length ≤ limits.maxRecords)
    (h : linesLoop limits lines index pending records = .ok rs) :
    (∀ r ∈ rs, r.Parsed limits) ∧ rs.length ≤ limits.maxRecords := by
  induction lines generalizing index pending records with
  | nil =>
    rw [linesLoop] at h
    split at h
    · cases h
      exact ⟨hrecords, hcount⟩
    · cases h
  | cons line lines ih =>
    rw [linesLoop] at h
    split at h
    · split at h
      · cases h
      · exact ih hrecords hcount h
    · split at h
      · cases h
      · exact ih hrecords hcount h
      · rename_i r hparsed
        split at h
        · cases h
        · rename_i hroom
          obtain ⟨tokens, htokens, hrecord⟩ := bind_eq_ok hparsed
          have hr := recordOf_sound (tokensLoop_sound (fun t ht => absurd ht not_mem_nil) htokens) hrecord
          refine ih (fun r' hr' => ?_) ?_ h
          · obtain hr' | hr' := mem_append.1 hr'
            · exact hrecords r' hr'
            · obtain rfl := mem_singleton.1 hr'
              exact hr
          · rw [length_append, length_singleton]
            omega

/-- **What is parsed keeps to the limits.** -/
theorem parse_sound {text : List Char} {d : Document} (h : parse limits text = .ok d) :
    (∀ r ∈ d.records, r.Parsed limits) ∧ d.records.length ≤ limits.maxRecords := by
  rw [parse] at h
  split at h
  · cases h
  · cases hlines : linesLoop limits (text.splitOn '\n') 0 ⟨[], 0, 0, false⟩ [] with
    | error e =>
      rw [hlines] at h
      cases h
    | ok rs =>
      rw [hlines] at h
      cases h
      exact linesLoop_sound (fun r hr => absurd hr not_mem_nil) (Nat.zero_le _) hlines

/-! ### The canonical text as a layout -/

/-- How a character is written between quotes. -/
def pieceOf (c : Char) : Piece :=
  if c = '"' then .escape ['"'] c
  else if c = '\\' then .escape ['\\'] c
  else if c = '\n' then .escape ['n'] c
  else if c = '\r' then .escape ['r'] c
  else if c = '\t' then .escape ['t'] c
  else if isControl c then .escape ('u' :: hex4 c.toNat) c
  else .raw c

def valueSegments (value : List Char) : Token :=
  if needsQuotes value then [.quoted (value.map pieceOf)] else value.map .bare

theorem pieceOf_source (c : Char) : (pieceOf c).source = escapeChar c := by
  unfold pieceOf escapeChar
  split_ifs <;> rfl

theorem pieceOf_char (c : Char) : (pieceOf c).char = c := by
  unfold pieceOf
  split_ifs <;> rfl

theorem toDigit16_hexDigits {n : ℕ} (h : n < 16) : toDigit16 (hexDigits.getD n '0') = some n := by
  revert n
  decide

theorem hex4_spells (n : ℕ) (h : n < 65536) : Hex4 (hex4 n) n := by
  have hdigits : ∀ m, toDigit16 (hexDigits.getD (m % 16) '0') = some (m % 16) :=
    fun m => toDigit16_hexDigits (Nat.mod_lt _ (by decide))
  have hvalue : ((n / 4096 % 16 * 16 + n / 256 % 16) * 16 + n / 16 % 16) * 16 + n % 16 = n := by omega
  have hspells := Hex4.digits (hdigits (n / 4096)) (hdigits (n / 256)) (hdigits (n / 16)) (hdigits n)
  rw [hvalue] at hspells
  exact hspells

theorem pieceOf_wellFormed (c : Char) : (pieceOf c).WellFormed := by
  unfold pieceOf
  split_ifs with hquote hslash hn hr ht hcontrol
  · subst hquote
    exact .short rfl
  · subst hslash
    exact .short rfl
  · subst hn
    exact .short rfl
  · subst hr
    exact .short rfl
  · subst ht
    exact .short rfl
  · have hsmall : c.toNat < 0x20 := of_decide_eq_true hcontrol
    exact .unicode (hex4_spells _ (by omega))
  · exact ⟨hquote, hslash, Bool.eq_false_of_not_eq_true hcontrol⟩

theorem valueSegments_source (value : List Char) :
    (valueSegments value).flatMap Segment.source = quoteIfNeeded value := by
  unfold valueSegments quoteIfNeeded
  split
  · rw [flatMap_singleton, Segment.source, flatMap_map]
    simp only [pieceOf_source]
  · rw [flatMap_map]
    exact flatMap_singleton' value

theorem valueSegments_text (value : List Char) : (valueSegments value).flatMap Segment.text = value := by
  unfold valueSegments
  split
  · rw [flatMap_singleton, Segment.text, map_map]
    simp only [Function.comp_def, pieceOf_char, map_id']
  · rw [flatMap_map]
    exact flatMap_singleton' value

/-- A character that white space does not cover is no blank. -/
theorem isBlank_eq_false_of {c : Char} (h : isWhiteSpace c = false) : isBlank c = false := by
  by_contra hblank
  rw [Bool.not_eq_false, isBlank, Bool.or_eq_true, decide_eq_true_eq, decide_eq_true_eq] at hblank
  obtain rfl | rfl := hblank <;> cases h

theorem valueSegments_wellFormed (value : List Char) : ∀ s ∈ valueSegments value, s.WellFormed := by
  intro s hs
  unfold valueSegments at hs
  split at hs
  · obtain rfl := mem_singleton.1 hs
    intro p hp
    obtain ⟨c, -, rfl⟩ := mem_map.1 hp
    exact pieceOf_wellFormed c
  · rename_i hbare
    obtain ⟨c, hc, rfl⟩ := mem_map.1 hs
    rw [needsQuotes, Bool.or_eq_true, not_or, Bool.not_eq_true, Bool.not_eq_true, any_eq_false] at hbare
    have hplain := hbare.2 c hc
    simp only [Bool.or_eq_true, decide_eq_true_eq, not_or, Bool.not_eq_true] at hplain
    exact ⟨isBlank_eq_false_of hplain.1.1.1.1, hplain.1.2, hplain.1.1.1.2, hplain.2⟩

/-- What a value is written as is not empty, and does not end in a backslash. -/
theorem quoteIfNeeded_getLast (value : List Char) :
    ∃ init c, quoteIfNeeded value = init ++ [c] ∧ c ≠ '\\' := by
  unfold quoteIfNeeded
  split
  · exact ⟨'"' :: value.flatMap escapeChar, '"', rfl, by decide⟩
  · rename_i hbare
    rw [needsQuotes, Bool.or_eq_true, not_or, Bool.not_eq_true, Bool.not_eq_true, any_eq_false] at hbare
    obtain rfl | ⟨init, c, rfl⟩ := eq_nil_or_concat value
    · cases hbare.1
    · rw [concat_eq_append] at hbare ⊢
      refine ⟨init, c, rfl, ?_⟩
      have hplain := hbare.2 c (mem_append_right _ mem_cons_self)
      simp only [Bool.or_eq_true, decide_eq_true_eq, not_or] at hplain
      exact hplain.1.1.2

/-- The token of a field. -/
def fieldToken (field : String × String) : Token :=
  (field.1.toList ++ ['=']).map Segment.bare ++ valueSegments field.2.toList

def fieldItems (field : String × String) : Chunk := [.blank ' ', .token (fieldToken field)]

def recordChunk (r : Record) : Chunk := .token (r.kind.toList.map .bare) :: r.fields.flatMap fieldItems

/-- A line for each record, and the empty one after the last line feed. -/
def canonicalLayout (records : List Record) : Layout :=
  records.map (fun r => ⟨[], recordChunk r, none, false⟩) ++ [⟨[], [], none, false⟩]

theorem source_bare (chars : List Char) : Token.source (chars.map .bare) = chars := by
  rw [Token.source, flatMap_map]
  exact flatMap_singleton' chars

theorem text_bare (chars : List Char) : Token.text (chars.map .bare) = chars := by
  rw [Token.text, flatMap_map]
  exact flatMap_singleton' chars

theorem fieldToken_source (field : String × String) :
    (fieldToken field).source = field.1.toList ++ '=' :: quoteIfNeeded field.2.toList := by
  have happend : (fieldToken field).source = Token.source ((field.1.toList ++ ['=']).map Segment.bare) ++
      (valueSegments field.2.toList).flatMap Segment.source := flatMap_append
  rw [happend, source_bare, valueSegments_source, append_assoc]
  rfl

theorem fieldToken_text (field : String × String) : (fieldToken field).text = fieldText field := by
  have happend : (fieldToken field).text = Token.text ((field.1.toList ++ ['=']).map Segment.bare) ++
      (valueSegments field.2.toList).flatMap Segment.text := flatMap_append
  rw [happend, text_bare, valueSegments_text, append_assoc]
  rfl

/-- A line is the kind and a blank before each field. -/
theorem recordChunk_source (r : Record) : (recordChunk r).source = r.line := by
  have hfields : ∀ fields : List (String × String), (fields.flatMap fieldItems).flatMap Item.source =
      fields.flatMap (fun field => ' ' :: (field.1.toList ++ '=' :: quoteIfNeeded field.2.toList)) := by
    intro fields
    rw [flatMap_assoc]
    refine flatMap_congr fun field _ => ?_
    show ' ' :: ((fieldToken field).source ++ []) = _
    rw [append_nil, fieldToken_source]
  have hkind : (recordChunk r).source =
      Token.source (r.kind.toList.map .bare) ++ (r.fields.flatMap fieldItems).flatMap Item.source := rfl
  rw [hkind, source_bare, hfields, Record.line]

theorem recordChunk_tokens (r : Record) :
    (recordChunk r).tokens = r.kind.toList.map .bare :: r.fields.map fieldToken := by
  have hfields : ∀ fields : List (String × String),
      (fields.flatMap fieldItems).filterMap Item.token? = fields.map fieldToken := by
    intro fields
    induction fields with
    | nil => rfl
    | cons field fields ih => rw [flatMap_cons, filterMap_append, ih, map_cons]; rfl
  rw [← hfields]
  rfl

/-- Lines that each end in a line feed. -/
theorem intercalate_concat_nil (lines : List (List Char)) :
    ['\n'].intercalate (lines ++ [[]]) = lines.flatMap (· ++ ['\n']) := by
  induction lines with
  | nil => rfl
  | cons line lines ih =>
    have hne : lines ++ [[]] ≠ [] := by simp
    obtain ⟨next, rest, hcons⟩ := exists_cons_of_ne_nil hne
    rw [hcons] at ih
    rw [cons_append, hcons, flatMap_cons, ← ih, intercalate_cons_cons, append_assoc]

theorem canonicalLayout_text (records : List Record) :
    (canonicalLayout records).text = records.flatMap fun r => r.line ++ ['\n'] := by
  have hphysical : (canonicalLayout records).flatMap LogicalLine.physical = records.map Record.line ++ [[]] := by
    rw [canonicalLayout, flatMap_append, flatMap_map]
    congr 1
    rw [← flatMap_singleton' (records.map Record.line), flatMap_map]
    refine flatMap_congr fun r _ => ?_
    show [(recordChunk r).source ++ [] ++ []] = [r.line]
    rw [append_nil, append_nil, recordChunk_source]
  rw [Layout.text, hphysical, intercalate_concat_nil, flatMap_map]

/-! ### It is well formed -/

theorem bare_of_isIdentifier {s : String} (h : isIdentifier s = true) {c : Char} (hc : c ∈ s.toList) :
    (Segment.bare c).WellFormed := by
  have hkey := isKeyChar_of_isIdentifier h hc
  have hne : ∀ d : Char, isKeyChar d = false → c ≠ d := by
    rintro d hd rfl
    rw [hkey] at hd
    cases hd
  have hblank : isBlank c = false := by
    rw [isBlank, decide_eq_false (hne ' ' (by decide)), decide_eq_false (hne '\t' (by decide))]
    rfl
  have hcontrol : isControl c = false := by
    simp only [isKeyChar, Bool.or_eq_true, Bool.and_eq_true, decide_eq_true_eq] at hkey
    exact decide_eq_false (by omega)
  exact ⟨hblank, hne '#' (by decide), hne '"' (by decide), hcontrol⟩

theorem fieldToken_wellFormed {field : String × String} (h : isIdentifier field.1 = true) :
    (fieldToken field).WellFormed := by
  refine ⟨by simp [fieldToken], fun s hs => ?_⟩
  obtain hs | hs := mem_append.1 hs
  · obtain ⟨c, hc, rfl⟩ := mem_map.1 hs
    obtain hc | hc := mem_append.1 hc
    · exact bare_of_isIdentifier h hc
    · obtain rfl := mem_singleton.1 hc
      exact ⟨by decide, by decide, by decide, by decide⟩
  · exact valueSegments_wellFormed _ s hs

theorem recordChunk_wellFormed {r : Record} (h : r.entry.Proper) : (recordChunk r).WellFormed := by
  have hkind : Token.WellFormed (r.kind.toList.map .bare) := by
    refine ⟨fun hnil => ne_nil_of_isIdentifier h.kind (map_eq_nil_iff.1 hnil), fun s hs => ?_⟩
    obtain ⟨c, hc, rfl⟩ := mem_map.1 hs
    exact bare_of_isIdentifier h.kind hc
  have hchain : ∀ (t : Token) (fields : List (String × String)),
      IsChain Item.Apart (.token t :: fields.flatMap fieldItems) := by
    intro t fields
    induction fields generalizing t with
    | nil => exact .singleton _
    | cons field fields ih => exact .cons_cons trivial (.cons_cons trivial (ih (fieldToken field)))
  refine ⟨fun item hitem => ?_, hchain _ _⟩
  obtain rfl | hitem := mem_cons.1 hitem
  · exact hkind
  · obtain ⟨field, hfield, hitem⟩ := mem_flatMap.1 hitem
    obtain rfl | hitem := mem_cons.1 hitem
    · rfl
    · obtain rfl := mem_singleton.1 hitem
      exact fieldToken_wellFormed (h.keys field hfield)

/-- A record's line does not end in a backslash, so it is not continued. -/
theorem line_getLast {r : Record} (h : r.entry.Proper) : r.line.getLast? ≠ some '\\' := by
  obtain hnil | ⟨fields, field, hfields⟩ := eq_nil_or_concat r.fields
  · intro hlast
    rw [Record.line, hnil, flatMap_nil, append_nil] at hlast
    exact absurd (isKeyChar_of_isIdentifier h.kind (mem_of_getLast? hlast)) (by decide)
  · obtain ⟨init, c, hvalue, hc⟩ := quoteIfNeeded_getLast field.2.toList
    have hline : ∃ before, r.line = before ++ [c] := by
      rw [Record.line, hfields, concat_eq_append, flatMap_append, flatMap_singleton, hvalue]
      exact ⟨r.kind.toList ++ (fields.flatMap (fun field => ' ' :: (field.1.toList ++ '=' :: quoteIfNeeded field.2.toList)) ++
        ' ' :: (field.1.toList ++ '=' :: init)), by simp⟩
    obtain ⟨before, hbefore⟩ := hline
    rw [hbefore, getLast?_concat]
    exact fun hsome => hc (Option.some.inj hsome)

theorem canonicalLayout_wellFormed {records : List Record} (h : ∀ r ∈ records, r.entry.Proper) :
    ∀ l ∈ canonicalLayout records, l.WellFormed := by
  intro l hl
  obtain hl | hl := mem_append.1 hl
  · obtain ⟨r, hr, rfl⟩ := mem_map.1 hl
    refine ⟨nofun, recordChunk_wellFormed (h r hr), fun _ => ?_, nofun⟩
    show (recordChunk r).source.getLast? ≠ some '\\'
    rw [recordChunk_source]
    exact line_getLast (h r hr)
  · obtain rfl := mem_singleton.1 hl
    exact ⟨nofun, ⟨nofun, .nil⟩, nofun, nofun⟩

/-- Each line writes its record. -/
theorem canonicalLayout_writes (records : List Record) :
    (canonicalLayout records).Writes (records.map Record.entry) := by
  refine ⟨records.map (some ∘ Record.entry) ++ [none], ?_, ?_⟩
  · refine rel_append ?_ (.cons trivial .nil)
    rw [forall₂_map_left_iff, forall₂_map_right_iff, forall₂_same]
    intro r _
    show Config.Writes ([] ++ (recordChunk r).tokens) _
    rw [nil_append, recordChunk_tokens]
    refine ⟨text_bare _, ?_⟩
    rw [map_map]
    exact map_congr_left fun field _ => fieldToken_text field
  · rw [reduceOption_append, ← map_map, reduceOption, filterMap_map]
    exact ((append_nil _).trans filterMap_some).symm

/-! ### Sorting -/

theorem Record.sorted_perm (r : Record) : r.sorted.fields.Perm r.fields := perm_insertionSort _ _

theorem canonicalRecords_perm (d : Document) : d.canonicalRecords.Perm (d.records.map Record.sorted) :=
  perm_insertionSort _ _

theorem Entry.Proper.sorted {r : Record} (h : r.entry.Proper) : r.sorted.entry.Proper where
  kind := h.kind
  keys := fun field hfield => h.keys field (r.sorted_perm.mem_iff.1 hfield)
  distinct := (r.sorted_perm.map _).nodup_iff.2 h.distinct

theorem Record.Parsed.sorted {r : Record} (h : r.Parsed limits) : r.sorted.Parsed limits where
  proper := h.proper.sorted
  kind := h.kind
  values := fun field hfield => h.values field (r.sorted_perm.mem_iff.1 hfield)
  fields := r.sorted_perm.length_eq.trans_le h.fields

/-- A record of the canonical text is a record of the configuration, its fields sorted. -/
theorem mem_canonicalRecords {d : Document} {r : Record} :
    r ∈ d.canonicalRecords ↔ ∃ r' ∈ d.records, r'.sorted = r := by
  rw [(canonicalRecords_perm d).mem_iff, mem_map]

theorem length_canonicalRecords (d : Document) : d.canonicalRecords.length = d.records.length := by
  rw [(canonicalRecords_perm d).length_eq, length_map]

/-! ### Reading it -/

variable (limits) in
/-- The canonical text of a configuration of proper records fits where these do. -/
theorem canonicalLayout_fits {d : Document} (hbytes : byteLen d.toCanonical ≤ limits.maxBytes)
    (hparsed : ∀ r ∈ d.records, r.Parsed limits) (hcount : d.records.length ≤ limits.maxRecords) :
    (canonicalLayout d.canonicalRecords).Fits limits (d.canonicalRecords.map Record.entry) := by
  have hcanonical : ∀ r ∈ d.canonicalRecords, r.Parsed limits := by
    intro r hr
    obtain ⟨r', hr', rfl⟩ := mem_canonicalRecords.1 hr
    exact (hparsed r' hr').sorted
  refine ⟨?_, fun l hl => ?_, fun l hl t ht => ?_, fun e he => ?_, ?_⟩
  · rw [canonicalLayout_text]
    exact hbytes
  · obtain hl | hl := mem_append.1 hl
    · obtain ⟨r, -, rfl⟩ := mem_map.1 hl
      exact Nat.zero_le _
    · obtain rfl := mem_singleton.1 hl
      exact Nat.zero_le _
  · obtain hl | hl := mem_append.1 hl
    · obtain ⟨r, hr, rfl⟩ := mem_map.1 hl
      have htokens : t ∈ (recordChunk r).tokens := ht
      rw [recordChunk_tokens] at htokens
      obtain rfl | htokens := mem_cons.1 htokens
      · rw [text_bare]
        exact (hcanonical r hr).kind
      · obtain ⟨field, hfield, rfl⟩ := mem_map.1 htokens
        rw [fieldToken_text]
        exact (hcanonical r hr).values field hfield
    · obtain rfl := mem_singleton.1 hl
      cases ht
  · obtain ⟨r, hr, rfl⟩ := mem_map.1 he
    exact (hcanonical r hr).fields
  · rw [length_map, length_canonicalRecords]
    exact hcount

variable (limits) in
/-- **The canonical text is read as the records it was made of**, or a size limit is named that these do
not keep to, which is never the one on continued lines. -/
theorem canonical_outcome {d : Document} (hproper : ∀ r ∈ d.records, r.entry.Proper) :
    Outcome (byteLen d.toCanonical ≤ limits.maxBytes ∧ (∀ r ∈ d.records, r.Parsed limits) ∧
        d.records.length ≤ limits.maxRecords) (· ≠ .logicalLine)
      (parse limits d.toCanonical) fun d' => d'.records.map Record.entry = d.canonicalRecords.map Record.entry := by
  have hcanonical : ∀ r ∈ d.canonicalRecords, r.entry.Proper := by
    intro r hr
    obtain ⟨r', hr', rfl⟩ := mem_canonicalRecords.1 hr
    exact (hproper r' hr').sorted
  have hnone : ∀ l ∈ canonicalLayout d.canonicalRecords, l.continued = [] := by
    intro l hl
    obtain hl | hl := mem_append.1 hl
    · obtain ⟨r, -, rfl⟩ := mem_map.1 hl
      rfl
    · obtain rfl := mem_singleton.1 hl
      rfl
  have hne : canonicalLayout d.canonicalRecords ≠ [] := append_ne_nil_of_right_ne_nil _ (cons_ne_nil _ _)
  have hread := layout_outcome limits hne
    (canonicalLayout_wellFormed hcanonical) (canonicalLayout_writes d.canonicalRecords) fun e he => by
      obtain ⟨r, hr, rfl⟩ := mem_map.1 he
      exact hcanonical r hr
  rw [canonicalLayout_text] at hread
  obtain hok | ⟨hlarge, what, position, hmay, hfail⟩ := hread
  · exact .inl hok
  · refine .inr ⟨fun hf => hlarge (canonicalLayout_fits limits hf.1 hf.2.1 hf.2.2), what, position, ?_, hfail⟩
    rintro rfl
    obtain ⟨l, hl, hcontinued⟩ := hmay rfl
    exact hcontinued (hnone l hl)

/-! ### What a configuration says -/

/-- A record up to the order of its fields: its kind and the set of these. -/
abbrev Content := String × Finset (String × String)

def Entry.content (e : Entry) : Content := (e.kind, e.fields.toFinset)

/-- A configuration up to the order of records and of fields. -/
def Document.contents (d : Document) : Multiset Content :=
  (d.records.map fun r => r.entry.content : List Content)

theorem Record.sorted_content (r : Record) : r.sorted.entry.content = r.entry.content :=
  Prod.ext rfl (toFinset_eq_of_perm _ _ r.sorted_perm)

theorem contents_eq_of_entries {d d' : Document}
    (h : d'.records.map Record.entry = d.canonicalRecords.map Record.entry) : d'.contents = d.contents := by
  have hmap : ∀ records : List Record,
      records.map (fun r => r.entry.content) = (records.map Record.entry).map Entry.content :=
    fun records => by rw [map_map]; rfl
  refine Multiset.coe_eq_coe.2 ?_
  rw [hmap, h, ← hmap]
  refine ((canonicalRecords_perm d).map _).trans ?_
  rw [map_map]
  exact Perm.of_eq (map_congr_left fun r _ => r.sorted_content)

/-- What a proper record holds decides its fields in their order. -/
theorem sorted_entry_eq {a b : Record} (ha : a.entry.Proper) (hb : b.entry.Proper)
    (h : a.entry.content = b.entry.content) : a.sorted.entry = b.sorted.entry := by
  have hperm : a.fields.Perm b.fields :=
    perm_of_nodup_nodup_toFinset_eq ha.distinct.of_map hb.distinct.of_map (congrArg Prod.snd h)
  have hfields : a.sorted.fields = b.sorted.fields :=
    Sorting.insertionSort_perm_eq fieldLe hperm fun x hx y hy hxy hyx =>
      inj_on_of_nodup_map ha.distinct hx hy (String.le_antisymm hxy hyx)
  have hkind : a.sorted.kind = b.sorted.kind := congrArg Prod.fst h
  rw [Record.entry, hkind, hfields]
  rfl

/-- An entry as a record, wherever it is. -/
def Entry.record (e : Entry) : Record := ⟨e.kind, e.fields, ⟨0, 0⟩⟩

/-- Where a record is does not matter to its place. -/
def entryLe (a b : Entry) : Prop := recordLe a.record b.record

instance : DecidableRel entryLe := fun a b => inferInstanceAs (Decidable (sortKey a.record ≤ sortKey b.record))

instance : Std.Total entryLe := ⟨fun a b => le_total (sortKey a.record) (sortKey b.record)⟩

instance : IsTrans Entry entryLe := ⟨fun _ _ _ hab hbc =>
  le_trans (α := String ×ₗ String ×ₗ List (String ×ₗ String)) hab hbc⟩

/-- The order of records tells apart what they hold. -/
theorem entryLe_antisymm {a b : Entry} (hab : entryLe a b) (hba : entryLe b a) : a = b := by
  have hkey : sortKey a.record = sortKey b.record :=
    le_antisymm (α := String ×ₗ String ×ₗ List (String ×ₗ String)) hab hba
  have hpair : (a.kind, toLex (identity a.record, a.fields.map toLex)) =
      (b.kind, toLex (identity b.record, b.fields.map toLex)) := congrArg ofLex hkey
  have hinner : (identity a.record, a.fields.map toLex) = (identity b.record, b.fields.map toLex) :=
    congrArg ofLex (congrArg Prod.snd hpair)
  have hfields : a.fields = b.fields := map_injective_iff.2 toLex.injective (congrArg Prod.snd hinner)
  have hkind : a.kind = b.kind := congrArg Prod.fst hpair
  cases a
  cases b
  cases hkind
  cases hfields
  rfl

theorem canonicalRecords_entries (d : Document) :
    d.canonicalRecords.map Record.entry =
      (d.records.map fun r => r.sorted.entry).insertionSort entryLe := by
  rw [Document.canonicalRecords, map_insertionSort recordLe entryLe Record.entry _ fun a _ b _ => Iff.rfl, map_map]
  rfl

theorem toCanonical_eq (d : Document) :
    d.toCanonical = (d.canonicalRecords.map Record.entry).flatMap fun e => e.record.line ++ ['\n'] := by
  rw [flatMap_map]
  rfl

/-- **What a configuration says decides its canonical text.** -/
theorem toCanonical_eq_of_contents {d d' : Document} (hd : ∀ r ∈ d.records, r.entry.Proper)
    (hd' : ∀ r ∈ d'.records, r.entry.Proper) (h : d.contents = d'.contents) : d.toCanonical = d'.toCanonical := by
  have hperm : (d.records.map fun r => r.sorted.entry).Perm (d'.records.map fun r => r.sorted.entry) :=
    Lists.perm_map_of_perm_map (Multiset.coe_eq_coe.1 h) fun a ha b hb => sorted_entry_eq (hd a ha) (hd' b hb)
  rw [toCanonical_eq, toCanonical_eq, canonicalRecords_entries, canonicalRecords_entries,
    Sorting.insertionSort_perm_eq entryLe hperm fun a _ b _ => entryLe_antisymm]

/-- **And it is decided by it.** -/
theorem contents_eq_of_toCanonical {limits : ParseLimits} {d d' : Document} (hd : ∀ r ∈ d.records, r.Parsed limits)
    (hcount : d.records.length ≤ limits.maxRecords) (hd' : ∀ r ∈ d'.records, r.entry.Proper)
    (h : d.toCanonical = d'.toCanonical) : d.contents = d'.contents := by
  -- Read the text back with room for it: what is read is what either was made of.
  let roomy : ParseLimits := { limits with maxBytes := byteLen d.toCanonical }
  have hparsed : ∀ r ∈ d.records, r.Parsed roomy := fun r hr =>
    ⟨(hd r hr).proper, (hd r hr).kind, (hd r hr).values, (hd r hr).fields⟩
  have hleft := canonical_outcome roomy fun r hr => (hd r hr).proper
  have hright := canonical_outcome roomy hd'
  obtain ⟨x, hx, hentries⟩ := hleft.resolve_right fun hno => hno.1 ⟨le_rfl, hparsed, hcount⟩
  rw [← h, hx] at hright
  obtain ⟨y, hy, hentries'⟩ | ⟨-, what, position, -, hfail⟩ := hright
  · cases hy
    exact (contents_eq_of_entries hentries).symm.trans (contents_eq_of_entries hentries')
  · cases hfail

/-- **Configuration text has a canonical form.**  The canonical text of what was parsed is read back, where it
is not too large, as the same up to the order of records and of fields, and it is its own canonical text; and
the canonical texts of two configurations are the same exactly where these hold the same records, the fields
of each as a set. -/
theorem canonical_form (limits : ParseLimits) :
    (∀ text d, parse limits text = .ok d → byteLen d.toCanonical ≤ limits.maxBytes →
      ∃ d', parse limits d.toCanonical = .ok d' ∧ d'.contents = d.contents ∧ d'.toCanonical = d.toCanonical) ∧
    ∀ text text' d d', parse limits text = .ok d → parse limits text' = .ok d' →
      (d.toCanonical = d'.toCanonical ↔ d.contents = d'.contents) := by
  have hproper : ∀ {text d}, parse limits text = .ok d → ∀ r ∈ d.records, r.entry.Proper :=
    fun h r hr => ((parse_sound h).1 r hr).proper
  refine ⟨fun text d h hbytes => ?_, fun text text' d d' h h' => ⟨fun hsame => ?_, fun hsame => ?_⟩⟩
  · obtain ⟨hparsed, hcount⟩ := parse_sound h
    obtain ⟨d', hd', hentries⟩ :=
      (canonical_outcome limits (hproper h)).resolve_right fun hno => hno.1 ⟨hbytes, hparsed, hcount⟩
    have hcontents := contents_eq_of_entries hentries
    exact ⟨d', hd', hcontents, toCanonical_eq_of_contents (hproper hd') (hproper h) hcontents⟩
  · exact contents_eq_of_toCanonical (parse_sound h).1 (parse_sound h).2 (hproper h') hsame
  · exact toCanonical_eq_of_contents (hproper h) (hproper h') hsame

namespace Sample

/-- Two records out of order, a value that needs quotes. -/
def hosts : Document := ⟨[⟨"host", [("note", "a #\n"), ("id", "b")], ⟨1, 1⟩⟩, ⟨"host", [("id", "a")], ⟨2, 1⟩⟩]⟩

theorem hosts_parsed : parse .default "host note=\"a #\\n\" id=b\nhost id=a".toList = .ok hosts := by decide +kernel

example : String.ofList hosts.toCanonical = "host id=a\nhost id=b note=\"a #\\n\"\n" := by decide +kernel

theorem hosts_canonical :
    (∃ d', parse .default hosts.toCanonical = .ok d' ∧ d'.contents = hosts.contents ∧
      d'.toCanonical = hosts.toCanonical) ∧
      (hosts.toCanonical = Document.toCanonical ⟨[]⟩ ↔ hosts.contents = Document.contents ⟨[]⟩) :=
  ⟨(canonical_form .default).1 _ hosts hosts_parsed (by decide +kernel),
    (canonical_form .default).2 _ [] hosts ⟨[]⟩ hosts_parsed (by decide +kernel)⟩

end Sample

end HypeLlm.Config
