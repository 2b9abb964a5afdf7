import HypeLlm.Config.Text

/-!
# Ways of writing a configuration

A configuration as it is laid out: tokens in pieces that are bare or quoted, with any escapes; blanks;
lines that are continued between tokens; comments; either line ending.  The layout is a tree, and `text`
writes it out.

* `quotedLoop_pieces` — a quoted string is read up to its closing quote, whatever its escapes;
* `tokensLoop_outcome` — a joined line is cut into the tokens that were written;
* `recordOf_outcome` — and these are the record.

Results are stated for every limit: what was written is read, or a size limit is named that it does not
keep to (`Outcome`).
-/

namespace HypeLlm.Config

open List HypeLlm.Words
open HypeLlm.Json (charFromU32)

/-! ### The grammar -/

/-- Four hexadecimal digits and the number they write. -/
inductive Hex4 : List Char → ℕ → Prop
  | digits {a b c d : Char} {i j k l : ℕ} (ha : toDigit16 a = some i) (hb : toDigit16 b = some j)
      (hc : toDigit16 c = some k) (hd : toDigit16 d = some l) :
      Hex4 [a, b, c, d] (((i * 16 + j) * 16 + k) * 16 + l)

/-- What may follow a backslash, and the character it stands for. -/
inductive Spells : List Char → Char → Prop
  | short {esc ch : Char} (h : shortEscape esc = some ch) : Spells [esc] ch
  | unicode {digits : List Char} {ch : Char} (h : Hex4 digits ch.toNat) : Spells ('u' :: digits) ch
  /-- A character in two halves. -/
  | pair {high low : List Char} {v w : ℕ} {ch : Char} (hhigh : Hex4 high v) (hlow : Hex4 low w)
      (hv : 0xD800 ≤ v ∧ v < 0xDC00) (hw : 0xDC00 ≤ w ∧ w < 0xE000)
      (hch : ch.toNat = 0x10000 + (v - 0xD800) * 1024 + (w - 0xDC00)) :
      Spells ('u' :: (high ++ '\\' :: 'u' :: low)) ch

/-- A part of what is between quotes. -/
inductive Piece where
  | raw (ch : Char)
  | escape (spelling : List Char) (ch : Char)
  deriving DecidableEq

namespace Piece

def char : Piece → Char
  | .raw ch => ch
  | .escape _ ch => ch

def source : Piece → List Char
  | .raw ch => [ch]
  | .escape spelling _ => '\\' :: spelling

def WellFormed : Piece → Prop
  | .raw ch => ch ≠ '"' ∧ ch ≠ '\\' ∧ isControl ch = false
  | .escape spelling ch => Spells spelling ch

end Piece

/-- A part of a token. -/
inductive Segment where
  | bare (ch : Char)
  | quoted (pieces : List Piece)
  deriving DecidableEq

namespace Segment

def source : Segment → List Char
  | .bare ch => [ch]
  | .quoted pieces => '"' :: (pieces.flatMap Piece.source ++ ['"'])

def text : Segment → List Char
  | .bare ch => [ch]
  | .quoted pieces => pieces.map Piece.char

def WellFormed : Segment → Prop
  | .bare ch => isBlank ch = false ∧ ch ≠ '#' ∧ ch ≠ '"' ∧ isControl ch = false
  | .quoted pieces => ∀ p ∈ pieces, p.WellFormed

end Segment

abbrev Token := List Segment

namespace Token

def source (t : Token) : List Char := t.flatMap Segment.source

def text (t : Token) : List Char := t.flatMap Segment.text

def WellFormed (t : Token) : Prop := t ≠ [] ∧ ∀ s ∈ t, s.WellFormed

end Token

/-- What stands on a line before a comment. -/
inductive Item where
  | blank (ch : Char)
  | token (t : Token)
  deriving DecidableEq

namespace Item

def source : Item → List Char
  | .blank ch => [ch]
  | .token t => t.source

def WellFormed : Item → Prop
  | .blank ch => isBlank ch = true
  | .token t => t.WellFormed

/-- Two tokens do not touch. -/
def Apart : Item → Item → Prop
  | .token _, .token _ => False
  | _, _ => True

def token? : Item → Option Token
  | .blank _ => none
  | .token t => some t

end Item

abbrev Chunk := List Item

namespace Chunk

def source (c : Chunk) : List Char := c.flatMap Item.source

def tokens (c : Chunk) : List Token := c.filterMap Item.token?

structure WellFormed (c : Chunk) : Prop where
  items : ∀ item ∈ c, item.WellFormed
  apart : c.IsChain Item.Apart

end Chunk

/-- The end of a physical line before its line feed. -/
def carriage (cr : Bool) : List Char := if cr then ['\r'] else []

/-- A record, or no record, with the comment after it. -/
structure LogicalLine where
  /-- What is continued by a backslash, each with the line ending after it. -/
  continued : List (Chunk × Bool)
  last : Chunk
  /-- What follows a `#`. -/
  comment : Option (List Char)
  cr : Bool
  deriving DecidableEq

namespace LogicalLine

variable (l : LogicalLine)

def commentSource : List Char := l.comment.elim [] ('#' :: ·)

/-- The physical lines. -/
def physical : List (List Char) :=
  l.continued.map (fun c => c.1.source ++ '\\' :: carriage c.2) ++
    [l.last.source ++ l.commentSource ++ carriage l.cr]

def tokens : List Token := (l.continued.flatMap fun c => c.1.tokens) ++ l.last.tokens

structure WellFormed : Prop where
  continued : ∀ c ∈ l.continued, c.1.WellFormed
  last : l.last.WellFormed
  /-- A bare backslash does not end the line. -/
  closed : l.comment = none → l.last.source.getLast? ≠ some '\\'
  /-- A comment ends with the line. -/
  comment : ∀ text ∈ l.comment, '\n' ∉ text

end LogicalLine

abbrev Layout := List LogicalLine

/-- The text of a layout. -/
def Layout.text (layout : Layout) : List Char := ['\n'].intercalate (layout.flatMap LogicalLine.physical)

/-! ### What is written -/

/-- A record without the place where it is. -/
structure Entry where
  kind : String
  fields : List (String × String)
  deriving Repr, DecidableEq

def Record.entry (r : Record) : Entry := ⟨r.kind, r.fields⟩

/-- A record that the grammar can hold: its kind and its keys are identifiers, and the keys differ. -/
structure Entry.Proper (e : Entry) : Prop where
  kind : isIdentifier e.kind = true
  keys : ∀ field ∈ e.fields, isIdentifier field.1 = true
  distinct : (e.fields.map (·.1)).Nodup

/-- The characters of a field, unquoted. -/
def fieldText (field : String × String) : List Char := field.1.toList ++ '=' :: field.2.toList

/-- The tokens write the record. -/
def Writes : List Token → Option Entry → Prop
  | [], none => True
  | kind :: tokens, some e => kind.text = e.kind.toList ∧ tokens.map Token.text = e.fields.map fieldText
  | _, _ => False

/-- The layout writes the records: each of its logical lines writes one, or none. -/
def Layout.Writes (layout : Layout) (entries : List Entry) : Prop :=
  ∃ written : List (Option Entry),
    Forall₂ (fun l e => Config.Writes l.tokens e) layout written ∧ entries = written.reduceOption

/-! ### Outcomes -/

section Outcome

variable {α β : Type} {fits p q : Prop} {may : SizeLimit → Prop}

/-- The result is as it should be, or something does not fit and a size limit is named. -/
def Outcome (fits : Prop) (may : SizeLimit → Prop) (r : Except ParseError α) (P : α → Prop) : Prop :=
  (∃ x, r = .ok x ∧ P x) ∨ (¬fits ∧ ∃ what position, may what ∧ r = .error ⟨.tooLarge what, position⟩)

theorem Outcome.ok {x : α} {P : α → Prop} (h : P x) : Outcome fits may (.ok x) P := .inl ⟨x, rfl, h⟩

theorem Outcome.bind {r : Except ParseError α} {k : α → Except ParseError β} {P : α → Prop} {Q : β → Prop}
    (h : Outcome p may r P) (hk : ∀ x, P x → Outcome q may (k x) Q)
    (hfits : fits → p ∧ q) : Outcome fits may (r >>= k) Q := by
  obtain ⟨x, rfl, hx⟩ | ⟨hnot, what, position, hmay, rfl⟩ := h
  · obtain ⟨y, hy, hQ⟩ | ⟨hnot, what, position, hmay, hy⟩ := hk x hx
    · exact .inl ⟨y, hy, hQ⟩
    · exact .inr ⟨fun hf => hnot (hfits hf).2, what, position, hmay, hy⟩
  · exact .inr ⟨fun hf => hnot (hfits hf).1, what, position, hmay, rfl⟩

/-- A size is checked. -/
theorem Outcome.check {bad : Prop} [Decidable bad] {r : Except ParseError α} {P : α → Prop} {what : SizeLimit}
    {position : Position} (hmay : may what) (h : ¬bad → Outcome p may r P)
    (hfits : fits → ¬bad ∧ p) :
    Outcome fits may (if bad then .error ⟨.tooLarge what, position⟩ else r) P := by
  by_cases hbad : bad
  · rw [if_pos hbad]
    exact .inr ⟨fun hf => (hfits hf).1 hbad, what, position, hmay, rfl⟩
  · rw [if_neg hbad]
    exact (h hbad).imp_right fun hno => ⟨fun hf => hno.1 (hfits hf).2, hno.2⟩

theorem Outcome.mono {r : Except ParseError α} {P Q : α → Prop} (h : Outcome p may r P)
    (hfits : fits → p) (hP : ∀ x, P x → Q x) : Outcome fits may r Q :=
  h.imp (fun ⟨x, hx, hp⟩ => ⟨x, hx, hP x hp⟩) fun hno => ⟨fun hf => hno.1 (hfits hf), hno.2⟩

end Outcome

/-! ### Quoted strings -/

theorem parseHex4_of_hex4 {digits : List Char} {v : ℕ} (h : Hex4 digits v) (lineNo start : ℕ)
    (rest : List Char) (col : ℕ) :
    parseHex4 lineNo start (digits ++ rest) col = .ok (v, rest, col + 4) := by
  obtain ⟨ha, hb, hc, hd⟩ := h
  simp [parseHex4, hexLoop, ha, hb, hc, hd]

theorem charFromU32_toNat (ch : Char) : charFromU32 ch.toNat = some ch := by
  have hvalid : ch.toNat.isValidChar := ch.valid
  rw [charFromU32, if_pos hvalid, Char.ofNat_toNat]

theorem parseUnicodeEscape_char {digits : List Char} {ch : Char} (h : Hex4 digits ch.toNat)
    (lineNo start : ℕ) (rest : List Char) (col : ℕ) :
    parseUnicodeEscape lineNo start (digits ++ rest) col = .ok (ch, rest, col + 4) := by
  have hvalid : ch.toNat < 0xD800 ∨ 0xE000 ≤ ch.toNat := by
    rcases ch.valid with h | h
    · exact .inl h
    · exact .inr (Nat.le_of_lt_succ (Nat.succ_lt_succ h.1))
  have hhigh : ¬(0xD800 ≤ ch.toNat ∧ ch.toNat < 0xDC00) := by omega
  have hlow : ¬(0xDC00 ≤ ch.toNat ∧ ch.toNat < 0xE000) := by omega
  rw [parseUnicodeEscape, parseHex4_of_hex4 h]
  show (if _ then _ else _) = _
  rw [if_neg hhigh, if_neg hlow, charFromU32_toNat]

theorem parseUnicodeEscape_pair {high low : List Char} {v w : ℕ} {ch : Char} (hhigh : Hex4 high v)
    (hlow : Hex4 low w) (hv : 0xD800 ≤ v ∧ v < 0xDC00) (hw : 0xDC00 ≤ w ∧ w < 0xE000)
    (hch : ch.toNat = 0x10000 + (v - 0xD800) * 1024 + (w - 0xDC00)) (lineNo start : ℕ)
    (rest : List Char) (col : ℕ) :
    parseUnicodeEscape lineNo start (high ++ '\\' :: 'u' :: (low ++ rest)) col =
      .ok (ch, rest, col + 10) := by
  have hread := parseHex4_of_hex4 hlow lineNo start rest (col + 4 + 2)
  unfold parseUnicodeEscape
  simp only [parseHex4_of_hex4 hhigh, bind, Except.bind, if_pos hv, hread, if_neg (not_not.2 hw), ← hch,
    charFromU32_toNat]

/-- An escape is read as the character that it stands for. -/
theorem parseEscape_spells {spelling : List Char} {ch : Char} (h : Spells spelling ch) (lineNo start : ℕ)
    (rest : List Char) (col : ℕ) :
    ∃ after, parseEscape lineNo start (spelling ++ rest) col = .ok (ch, rest, after) := by
  have hu : ∀ rest, parseEscape lineNo start ('u' :: rest) col =
      parseUnicodeEscape lineNo start rest (col + 1) := fun rest => rfl
  cases h with
  | short h =>
    refine ⟨col + 1, ?_⟩
    rw [singleton_append, parseEscape, h]
  | unicode h => exact ⟨_, by rw [cons_append, hu, parseUnicodeEscape_char h]⟩
  | pair hhigh hlow hv hw hch =>
    refine ⟨col + 1 + 10, ?_⟩
    rw [cons_append, hu, append_assoc, cons_append, cons_append,
      parseUnicodeEscape_pair hhigh hlow hv hw hch]

/-- **A string is read up to its closing quote.** -/
theorem quotedLoop_pieces {pieces : List Piece} (hwell : ∀ p ∈ pieces, p.WellFormed) (lineNo start : ℕ)
    (rest : List Char) {fuel : ℕ} (hfuel : (pieces.flatMap Piece.source ++ '"' :: rest).length ≤ fuel)
    (col : ℕ) (out : List Char) :
    ∃ after, quotedLoop lineNo start fuel (pieces.flatMap Piece.source ++ '"' :: rest) col out =
      .ok (out ++ pieces.map Piece.char, rest, after) := by
  induction pieces generalizing fuel col out with
  | nil =>
    obtain ⟨fuel, rfl⟩ := Nat.exists_eq_succ_of_ne_zero (Nat.ne_of_gt (Nat.zero_lt_of_lt hfuel))
    refine ⟨col + 1, ?_⟩
    rw [map_nil, append_nil]
    rfl
  | cons p pieces ih =>
    obtain ⟨fuel, rfl⟩ : ∃ n, fuel = n + 1 := by
      refine Nat.exists_eq_succ_of_ne_zero fun hzero => ?_
      rw [hzero, Nat.le_zero, length_eq_zero_iff, append_eq_nil_iff] at hfuel
      cases hfuel.2
    have ih := fun hf => @ih (fun q hq => hwell q (mem_cons_of_mem p hq)) fuel hf
    rw [flatMap_cons, append_assoc] at hfuel ⊢
    cases p with
    | raw ch =>
      obtain ⟨hquote, hslash, hcontrol⟩ := hwell (.raw ch) mem_cons_self
      obtain ⟨after, hafter⟩ := ih (by simpa [Piece.source] using hfuel) (col + 1) (out ++ [ch])
      refine ⟨after, ?_⟩
      show quotedLoop lineNo start (fuel + 1) (ch :: (pieces.flatMap Piece.source ++ '"' :: rest)) col out = _
      rw [quotedLoop, if_neg hquote, if_neg hslash, hcontrol, if_neg Bool.false_ne_true, hafter]
      simp [Piece.char]
    | escape spelling ch =>
      have hspells : Spells spelling ch := hwell (.escape spelling ch) mem_cons_self
      have hlen : (pieces.flatMap Piece.source ++ '"' :: rest).length ≤ fuel := by
        simp only [Piece.source, cons_append, length_cons, length_append] at hfuel ⊢
        omega
      obtain ⟨next, hnext⟩ :=
        parseEscape_spells hspells lineNo start (pieces.flatMap Piece.source ++ '"' :: rest) (col + 1)
      obtain ⟨after, hafter⟩ := ih hlen next (out ++ [ch])
      refine ⟨after, ?_⟩
      show quotedLoop lineNo start (fuel + 1)
        ('\\' :: (spelling ++ (pieces.flatMap Piece.source ++ '"' :: rest))) col out = _
      rw [quotedLoop, if_neg (by decide), if_pos rfl, hnext]
      show quotedLoop lineNo start fuel _ next (out ++ [ch]) = _
      rw [hafter]
      simp [Piece.char]

/-! ### Tokens -/

/-- A token ends before this. -/
def Ends (rest : List Char) : Prop := ∀ c ∈ rest.head?, (isBlank c || c = '#') = true

theorem byteLen_append (a b : List Char) : byteLen (a ++ b) = byteLen a + byteLen b := by
  rw [byteLen, Utf8.encode_append, length_append]
  rfl

/-- A part of a token is no longer than the token. -/
theorem byteLen_segment_le {t : Token} {s : Segment} (h : s ∈ t) : byteLen s.text ≤ byteLen t.text := by
  obtain ⟨before, after, rfl⟩ := append_of_mem h
  unfold Token.text
  rw [flatMap_append, flatMap_cons, byteLen_append, byteLen_append]
  omega

variable (limits : ParseLimits) {may : SizeLimit → Prop}

theorem tokenLoop_outcome (hmay : may .value) (lineNo tokenStart : ℕ) {t : Token}
    (hwell : ∀ s ∈ t, s.WellFormed) {rest : List Char} (hrest : Ends rest) {fuel : ℕ}
    (hfuel : (t.source ++ rest).length ≤ fuel) (col : ℕ) (out : List Char) :
    Outcome (∀ s ∈ t, byteLen s.text ≤ limits.maxValueBytes) may
      (tokenLoop limits lineNo tokenStart fuel (t.source ++ rest) col out)
      fun r => r.1 = out ++ t.text ∧ r.2.1 = rest := by
  induction t generalizing fuel col out with
  | nil =>
    have hsame : tokenLoop limits lineNo tokenStart fuel rest col out = .ok (out, rest, col) := by
      cases rest with
      | nil => cases fuel <;> rfl
      | cons c rest =>
        obtain ⟨fuel, rfl⟩ := Nat.exists_eq_succ_of_ne_zero (Nat.ne_of_gt (Nat.zero_lt_of_lt hfuel))
        rw [tokenLoop, if_pos (hrest c rfl)]
    show Outcome _ may (tokenLoop limits lineNo tokenStart fuel rest col out) _
    rw [hsame]
    exact .ok ⟨(append_nil out).symm, rfl⟩
  | cons s t ih =>
    have ih := @ih fun q hq => hwell q (mem_cons_of_mem s hq)
    have hsource : Token.source (s :: t) ++ rest = s.source ++ (Token.source t ++ rest) := by
      rw [Token.source, flatMap_cons, append_assoc]
      rfl
    have htext : Token.text (s :: t) = s.text ++ Token.text t := flatMap_cons
    rw [hsource] at hfuel ⊢
    cases s with
    | bare ch =>
      obtain ⟨hblank, hhash, hquote, hcontrol⟩ := hwell (.bare ch) mem_cons_self
      obtain ⟨fuel, rfl⟩ := Nat.exists_eq_succ_of_ne_zero (Nat.ne_of_gt (Nat.zero_lt_of_lt hfuel))
      show Outcome _ may (tokenLoop limits lineNo tokenStart (fuel + 1)
        (ch :: (Token.source t ++ rest)) col out) _
      rw [tokenLoop, hblank, if_neg (by simp [hhash]), if_neg hquote, hcontrol, if_neg Bool.false_ne_true]
      refine (ih (by simpa [Segment.source] using hfuel) (col + 1) (out ++ [ch])).mono
        (fun hf q hq => hf q (mem_cons_of_mem _ hq)) fun r hr => ?_
      rw [hr.1, htext]
      exact ⟨by simp [Segment.text], hr.2⟩
    | quoted pieces =>
      obtain ⟨fuel, rfl⟩ := Nat.exists_eq_succ_of_ne_zero (Nat.ne_of_gt (Nat.zero_lt_of_lt hfuel))
      have hsplit : (Segment.quoted pieces).source ++ (Token.source t ++ rest) =
          '"' :: (pieces.flatMap Piece.source ++ '"' :: (Token.source t ++ rest)) := by
        simp [Segment.source]
      rw [hsplit] at hfuel ⊢
      have hlen : (Token.source t ++ rest).length ≤ fuel := by
        simp only [length_cons, length_append] at hfuel ⊢
        omega
      obtain ⟨after, hafter⟩ := quotedLoop_pieces (hwell (.quoted pieces) mem_cons_self) lineNo col
        (Token.source t ++ rest) le_rfl (col + 1) []
      rw [tokenLoop, if_neg (by decide), if_pos rfl, parseQuoted, hafter]
      refine Outcome.check (p := ∀ q ∈ t, byteLen q.text ≤ limits.maxValueBytes) hmay (fun _ => ?_)
        fun hf => ⟨?_, fun q hq => hf q (mem_cons_of_mem _ hq)⟩
      · refine (ih hlen after (out ++ ([] ++ pieces.map Piece.char))).mono id fun r hr => ?_
        rw [hr.1, htext]
        exact ⟨by simp [Segment.text], hr.2⟩
      · exact Nat.not_lt.2 (hf (.quoted pieces) mem_cons_self)

theorem skipBlanks_of_not_isBlank {c : Char} (h : isBlank c = false) (rest : List Char) (col : ℕ) :
    skipBlanks (c :: rest) col = (c :: rest, col) := by
  rw [skipBlanks, h, if_neg Bool.false_ne_true]

/-- A token starts with a character that is neither a blank nor opens a comment. -/
theorem Token.WellFormed.source_eq_cons {t : Token} (h : t.WellFormed) :
    ∃ c rest, t.source = c :: rest ∧ isBlank c = false ∧ c ≠ '#' := by
  obtain ⟨hne, hwell⟩ := h
  obtain ⟨s, t, rfl⟩ := exists_cons_of_ne_nil hne
  have hs := hwell s mem_cons_self
  cases s with
  | bare ch => exact ⟨ch, _, rfl, hs.1, hs.2.1⟩
  | quoted pieces => exact ⟨'"', _, rfl, by decide, by decide⟩

/-- What may follow the items of a line: nothing, or a comment. -/
def IsTail (tail : List Char) : Prop := tail = [] ∨ ∃ text, tail = '#' :: text

theorem ends_source {items : Chunk} {t : Token} (hitems : ∀ item ∈ items, item.WellFormed)
    (hapart : (Item.token t :: items).IsChain Item.Apart) {tail : List Char} (htail : IsTail tail) :
    Ends (items.flatMap Item.source ++ tail) := by
  intro c hc
  cases items with
  | nil =>
    obtain rfl | ⟨text, rfl⟩ := htail
    · cases hc
    · cases hc
      rfl
  | cons item items =>
    cases item with
    | token u => exact (hapart.rel : Item.Apart (.token t) (.token u)).elim
    | blank ch =>
      have hblank : isBlank ch = true := hitems (.blank ch) mem_cons_self
      cases hc
      rw [hblank, Bool.true_or]

/-- **A line is cut into the tokens that were written.** -/
theorem tokensLoop_outcome (hmay : may .value) (lineNo : ℕ) {items : Chunk}
    (hitems : ∀ item ∈ items, item.WellFormed) (hapart : items.IsChain Item.Apart) {tail : List Char}
    (htail : IsTail tail) {fuel : ℕ} (hfuel : (items.flatMap Item.source ++ tail).length ≤ fuel) (col : ℕ)
    (acc : List (List Char × ℕ)) :
    Outcome (∀ t ∈ Chunk.tokens items, byteLen t.text ≤ limits.maxValueBytes) may
      (tokensLoop limits lineNo fuel (items.flatMap Item.source ++ tail) col acc)
      fun r => r.map (·.1) = acc.map (·.1) ++ (Chunk.tokens items).map Token.text := by
  induction items generalizing fuel col acc with
  | nil =>
    have hsame : tokensLoop limits lineNo fuel tail col acc = .ok acc := by
      cases fuel with
      | zero => rfl
      | succ fuel => obtain rfl | ⟨text, rfl⟩ := htail <;> rfl
    show Outcome _ may (tokensLoop limits lineNo fuel tail col acc) _
    rw [hsame]
    exact .ok (append_nil _).symm
  | cons item items ih =>
    have ih := @ih (fun q hq => hitems q (mem_cons_of_mem item hq)) hapart.tail
    rw [flatMap_cons, append_assoc] at hfuel ⊢
    cases item with
    | blank ch =>
      have hblank : isBlank ch = true := hitems (.blank ch) mem_cons_self
      obtain ⟨fuel, rfl⟩ := Nat.exists_eq_succ_of_ne_zero (Nat.ne_of_gt (Nat.zero_lt_of_lt hfuel))
      have hskip : tokensLoop limits lineNo (fuel + 1) (ch :: (items.flatMap Item.source ++ tail)) col acc =
          tokensLoop limits lineNo (fuel + 1) (items.flatMap Item.source ++ tail) (col + 1) acc := by
        rw [tokensLoop, tokensLoop, skipBlanks, hblank, if_pos rfl]
      show Outcome _ may (tokensLoop limits lineNo (fuel + 1)
        (ch :: (items.flatMap Item.source ++ tail)) col acc) _
      rw [hskip]
      refine ih ?_ (col + 1) acc
      simp only [Item.source, cons_append, nil_append, length_cons] at hfuel
      omega
    | token t =>
      have ht : t.WellFormed := hitems (.token t) mem_cons_self
      obtain ⟨c, rest, hsource, hblank, hhash⟩ := ht.source_eq_cons
      have hends := ends_source (fun q hq => hitems q (mem_cons_of_mem _ hq)) hapart htail
      obtain ⟨fuel, rfl⟩ : ∃ n, fuel = n + 1 := by
        refine Nat.exists_eq_succ_of_ne_zero fun hzero => ?_
        rw [hzero, Item.source, hsource] at hfuel
        cases hfuel
      have hline : t.source ++ (items.flatMap Item.source ++ tail) =
          c :: (rest ++ (items.flatMap Item.source ++ tail)) := by rw [hsource, cons_append]
      have hloop := tokenLoop_outcome limits hmay lineNo col ht.2 hends le_rfl col []
      have hlen : (items.flatMap Item.source ++ tail).length ≤ fuel := by
        simp only [Item.source, hsource, cons_append, length_cons, length_append] at hfuel ⊢
        omega
      show Outcome _ may (tokensLoop limits lineNo (fuel + 1)
        (t.source ++ (items.flatMap Item.source ++ tail)) col acc) _
      rw [hline] at hloop ⊢
      rw [tokensLoop, skipBlanks_of_not_isBlank hblank]
      show Outcome _ may (if c = '#' then _ else _) _
      rw [if_neg hhash]
      refine hloop.bind (q := byteLen t.text ≤ limits.maxValueBytes ∧
        ∀ u ∈ Chunk.tokens items, byteLen u.text ≤ limits.maxValueBytes) ?_ fun hf => ⟨?_, ?_, ?_⟩
      · rintro ⟨token, after, next⟩ ⟨rfl, rfl⟩
        refine Outcome.check (p := ∀ u ∈ Chunk.tokens items, byteLen u.text ≤ limits.maxValueBytes) hmay
          (fun _ => ?_) fun hf => ⟨Nat.not_lt.2 hf.1, hf.2⟩
        refine (ih hlen next (acc ++ [([] ++ t.text, col)])).mono id fun r hr => ?_
        rw [hr]
        simp [Chunk.tokens, Item.token?]
      · exact fun s hs => (byteLen_segment_le hs).trans (hf t (by simp [Chunk.tokens, Item.token?]))
      · exact hf t (by simp [Chunk.tokens, Item.token?])
      · intro u hu
        refine hf u ?_
        rw [Chunk.tokens, filterMap_cons]
        exact mem_cons_of_mem _ hu

/-! ### Records -/

/-- The characters of an identifier. -/
def isKeyChar (c : Char) : Bool :=
  (97 ≤ c.toNat && c.toNat ≤ 122) || (48 ≤ c.toNat && c.toNat ≤ 57) || c.toNat = 95

theorem isKeyChar_of_isIdentifier {s : String} (h : isIdentifier s = true) {c : Char} (hc : c ∈ s.toList) :
    isKeyChar c = true := by
  unfold isIdentifier at h
  simp only [Bool.and_eq_true] at h
  obtain ⟨⟨-, hall⟩, -⟩ := h
  have hlow : ∀ b : UInt8, (lowercase b || (48 ≤ b && b ≤ 57) || b = 95) = true → b.toNat < 128 := by
    intro b hb
    simp only [lowercase, Bool.or_eq_true, Bool.and_eq_true, decide_eq_true_eq, UInt8.le_iff_toNat_le,
      ← UInt8.toNat_inj] at hb
    obtain (hb | hb) | hb := hb
    · exact hb.2.trans_lt (by decide)
    · exact hb.2.trans_lt (by decide)
    · rw [hb]
      decide
  obtain ⟨hascii, hbyte⟩ := Utf8.forall_ascii (all_eq_true.1 hall) hlow hc
  have hnat : (UInt8.ofNat c.toNat).toNat = c.toNat := by
    rw [UInt8.toNat_ofNat', Nat.mod_eq_of_lt (by omega)]
  simp only [lowercase, Bool.or_eq_true, Bool.and_eq_true, decide_eq_true_eq, UInt8.le_iff_toNat_le,
    ← UInt8.toNat_inj, hnat] at hbyte
  simpa [isKeyChar] using hbyte

theorem ne_nil_of_isIdentifier {s : String} (h : isIdentifier s = true) : s.toList ≠ [] := by
  intro hnil
  rw [isIdentifier, hnil] at h
  cases h

theorem eq_notMem_of_isIdentifier {s : String} (h : isIdentifier s = true) : '=' ∉ s.toList :=
  fun hmem => absurd (isKeyChar_of_isIdentifier h hmem) (by decide)

theorem takeWhile_fieldText {field : String × String} (h : isIdentifier field.1 = true) :
    (fieldText field).takeWhile (· ≠ '=') = field.1.toList ∧
      ((fieldText field).dropWhile (· ≠ '=')).drop 1 = field.2.toList := by
  have hne : ∀ c ∈ field.1.toList, decide (c ≠ '=') = true :=
    fun c hc => decide_eq_true fun heq => eq_notMem_of_isIdentifier h (heq ▸ hc)
  unfold fieldText
  rw [takeWhile_append_of_pos hne, dropWhile_append_of_pos hne]
  simp

/-- The fields that were written are read. -/
theorem fieldsLoop_ok (lineNo : ℕ) {tokens : List (List Char × ℕ)} {fields : List (String × String)}
    (acc : List (String × String))
    (htokens : tokens.map (·.1) = fields.map fieldText)
    (hkeys : ∀ field ∈ fields, isIdentifier field.1 = true) (hdistinct : ((acc ++ fields).map (·.1)).Nodup) :
    fieldsLoop lineNo tokens acc = .ok (acc ++ fields) := by
  induction fields generalizing tokens acc with
  | nil =>
    rw [map_nil, map_eq_nil_iff] at htokens
    rw [htokens, append_nil, fieldsLoop]
  | cons field fields ih =>
    obtain ⟨⟨token, col⟩, tokens, rfl, htoken, hrest⟩ := map_eq_cons_iff.1 htokens
    obtain rfl : token = fieldText field := htoken
    have hkey := hkeys field mem_cons_self
    obtain ⟨htake, hdrop⟩ := takeWhile_fieldText hkey
    have hmem : '=' ∈ fieldText field := mem_append_right _ mem_cons_self
    have hfresh : acc.any (fun other => other.1 = field.1) = false := by
      rw [any_eq_false]
      intro other hother
      rw [map_append, map_cons, nodup_append] at hdistinct
      exact fun hsame => hdistinct.2.2 other.1 (mem_map_of_mem hother) field.1 mem_cons_self
        (of_decide_eq_true hsame)
    rw [fieldsLoop, if_neg (not_not.2 hmem), htake, hdrop, String.ofList_toList, String.ofList_toList,
      if_neg (not_not.2 hkey)]
    rw [hfresh, if_neg Bool.false_ne_true]
    have hmove : acc ++ field :: fields = (acc ++ [field]) ++ fields := by simp
    rw [hmove] at hdistinct ⊢
    exact ih (acc ++ [field]) hrest (fun f hf => hkeys f (mem_cons_of_mem field hf)) hdistinct

theorem recordOf_outcome (hmay : may .fieldCount) (lineNo : ℕ) {written : List Token} {e : Option Entry}
    {tokens : List (List Char × ℕ)} (hwrites : Config.Writes written e)
    (htokens : tokens.map (·.1) = written.map Token.text) (hproper : ∀ entry ∈ e, entry.Proper) :
    Outcome (∀ entry ∈ e, entry.fields.length ≤ limits.maxFieldsPerRecord) may
      (recordOf limits lineNo tokens) fun r => r.map Record.entry = e := by
  cases written with
  | nil =>
    cases e with
    | none =>
      rw [map_nil, map_eq_nil_iff] at htokens
      rw [htokens, recordOf]
      exact .ok rfl
    | some entry => exact hwrites.elim
  | cons kind written =>
    cases e with
    | none => exact hwrites.elim
    | some entry =>
      obtain ⟨hkind, hfields⟩ := hwrites
      obtain ⟨⟨token, col⟩, tokens, rfl, htoken, hrest⟩ := map_eq_cons_iff.1 htokens
      obtain rfl : token = entry.kind.toList := htoken.trans hkind
      obtain ⟨hident, hkeys, hdistinct⟩ := hproper entry rfl
      have htexts := hrest.trans hfields
      have hlen : tokens.length = entry.fields.length := by
        have h := congrArg length htexts
        rwa [length_map, length_map] at h
      rw [recordOf, if_neg (ne_nil_of_isIdentifier hident), String.ofList_toList, if_neg (not_not.2 hident)]
      refine Outcome.check (p := True) hmay (fun _ => ?_) fun hf => ⟨?_, trivial⟩
      · rw [fieldsLoop_ok lineNo [] htexts hkeys (by simpa using hdistinct)]
        exact .ok rfl
      · rw [hlen]
        exact Nat.not_lt.2 (hf entry rfl)

end HypeLlm.Config
