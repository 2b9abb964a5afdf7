import HypeLlm.Config.Layout

/-!
# Physical lines are joined as they are cut

Whether a line is continued, and whether it is a comment, is decided on the physical line, before the
joined line is cut into tokens.  Between tokens the two views of quoting agree: a line is outside of a
string at each of its ends, and a hash that is seen there opens the comment that the tokens end at.

* `commentStarts_chunk` — what stands on a line leaves the view of it outside of a string;
* `continued_joined`, `lineLoop_outcome` — the physical lines of a logical line make its record;
* **`layout_outcome`**, **`layout_parses`** — the text of a layout is parsed as the records it writes.
-/

namespace HypeLlm.Config

open List HypeLlm.Words

/-! ### The view of quoting -/

theorem commentStarts_quoted {c : Char} (hslash : c ≠ '\\') (rest : List Char) :
    commentStarts (c :: rest) true = commentStarts rest (c ≠ '"') := by
  rw [commentStarts.eq_def]
  exact if_neg hslash

theorem commentStarts_raw {c : Char} (hslash : c ≠ '\\') (hquote : c ≠ '"') (rest : List Char) :
    commentStarts (c :: rest) true = commentStarts rest true := by
  rw [commentStarts_quoted hslash, decide_eq_true hquote]

theorem commentStarts_escape (c : Char) (rest : List Char) :
    commentStarts ('\\' :: c :: rest) true = commentStarts rest true := by
  rw [commentStarts.eq_def]
  exact if_pos rfl

theorem commentStarts_bare {c : Char} (hhash : c ≠ '#') (rest : List Char) :
    commentStarts (c :: rest) false = commentStarts rest (c = '"') := by
  rw [commentStarts.eq_def]
  exact if_neg hhash

theorem toDigit16_plain {c : Char} {d : ℕ} (h : toDigit16 c = some d) :
    c ≠ '\\' ∧ c ≠ '"' ∧ isControl c = false := by
  have hrange : 48 ≤ c.toNat ∧ c.toNat ≤ 57 ∨ 97 ≤ c.toNat ∧ c.toNat ≤ 102 ∨ 65 ≤ c.toNat ∧ c.toNat ≤ 70 := by
    unfold toDigit16 at h
    split at h
    · rename_i hdigit
      exact .inl hdigit
    · split at h
      · rename_i hlower
        exact .inr (.inl hlower)
      · split at h
        · rename_i hupper
          exact .inr (.inr hupper)
        · cases h
  refine ⟨?_, ?_, ?_⟩
  · rintro rfl
    revert hrange
    decide
  · rintro rfl
    revert hrange
    decide
  · rw [isControl, decide_eq_false_iff_not]
    omega

theorem Hex4.plain {digits : List Char} {v : ℕ} (h : Hex4 digits v) :
    ∀ c ∈ digits, c ≠ '\\' ∧ c ≠ '"' ∧ isControl c = false := by
  obtain ⟨ha, hb, hc, hd⟩ := h
  intro c hmem
  simp only [mem_cons, not_mem_nil, or_false] at hmem
  obtain rfl | rfl | rfl | rfl := hmem
  · exact toDigit16_plain ha
  · exact toDigit16_plain hb
  · exact toDigit16_plain hc
  · exact toDigit16_plain hd

theorem commentStarts_plain {chars : List Char} (h : ∀ c ∈ chars, c ≠ '\\' ∧ c ≠ '"' ∧ isControl c = false)
    (rest : List Char) : commentStarts (chars ++ rest) true = commentStarts rest true := by
  induction chars with
  | nil => rfl
  | cons c chars ih =>
    obtain ⟨hslash, hquote, -⟩ := h c mem_cons_self
    rw [cons_append, commentStarts_raw hslash hquote, ih fun d hd => h d (mem_cons_of_mem c hd)]

theorem commentStarts_spells {spelling : List Char} {ch : Char} (h : Spells spelling ch) (rest : List Char) :
    commentStarts ('\\' :: (spelling ++ rest)) true = commentStarts rest true := by
  cases h with
  | short _ => exact commentStarts_escape _ rest
  | unicode hdigits =>
    rw [cons_append, commentStarts_escape, commentStarts_plain hdigits.plain]
  | pair hhigh hlow _ _ _ =>
    rw [cons_append, commentStarts_escape, append_assoc, commentStarts_plain hhigh.plain, cons_append,
      cons_append, commentStarts_escape, commentStarts_plain hlow.plain]

theorem commentStarts_pieces {pieces : List Piece} (hwell : ∀ p ∈ pieces, p.WellFormed) (rest : List Char) :
    commentStarts (pieces.flatMap Piece.source ++ rest) true = commentStarts rest true := by
  induction pieces with
  | nil => rfl
  | cons p pieces ih =>
    have ih := ih fun q hq => hwell q (mem_cons_of_mem p hq)
    rw [flatMap_cons, append_assoc]
    cases p with
    | raw ch =>
      obtain ⟨hquote, hslash, -⟩ := hwell (.raw ch) mem_cons_self
      show commentStarts (ch :: (pieces.flatMap Piece.source ++ rest)) true = _
      rw [commentStarts_raw hslash hquote, ih]
    | escape spelling ch =>
      have hspells : Spells spelling ch := hwell (.escape spelling ch) mem_cons_self
      show commentStarts ('\\' :: (spelling ++ (pieces.flatMap Piece.source ++ rest))) true = _
      rw [commentStarts_spells hspells, ih]

theorem commentStarts_token {t : Token} (hwell : ∀ s ∈ t, s.WellFormed) (rest : List Char) :
    commentStarts (t.source ++ rest) false = commentStarts rest false := by
  induction t with
  | nil => rfl
  | cons s t ih =>
    have ih := ih fun q hq => hwell q (mem_cons_of_mem s hq)
    have hsource : Token.source (s :: t) ++ rest = s.source ++ (Token.source t ++ rest) := by
      rw [Token.source, flatMap_cons, append_assoc]
      rfl
    rw [hsource]
    cases s with
    | bare ch =>
      obtain ⟨-, hhash, hquote, -⟩ := hwell (.bare ch) mem_cons_self
      show commentStarts (ch :: (Token.source t ++ rest)) false = _
      rw [commentStarts_bare hhash, decide_eq_false hquote, ih]
    | quoted pieces =>
      have hsplit : (Segment.quoted pieces).source ++ (Token.source t ++ rest) =
          '"' :: (pieces.flatMap Piece.source ++ '"' :: (Token.source t ++ rest)) := by
        simp [Segment.source]
      have hopen : decide ('"' = '"') = true := rfl
      have hclose : decide ('"' ≠ '"') = false := rfl
      rw [hsplit, commentStarts_bare (by decide), hopen,
        commentStarts_pieces (hwell (.quoted pieces) mem_cons_self), commentStarts_quoted (by decide), hclose, ih]

/-- **What stands on a line** leaves the view of it outside of a string. -/
theorem commentStarts_chunk {chunk : Chunk} (hwell : chunk.WellFormed) (rest : List Char) :
    commentStarts (chunk.source ++ rest) false = commentStarts rest false := by
  obtain ⟨hitems, -⟩ := hwell
  unfold Chunk.source
  induction chunk with
  | nil => rfl
  | cons item chunk ih =>
    have ih := ih fun q hq => hitems q (mem_cons_of_mem item hq)
    rw [flatMap_cons, append_assoc]
    cases item with
    | blank ch =>
      have hblank : isBlank ch = true := hitems (.blank ch) mem_cons_self
      show commentStarts (ch :: (chunk.flatMap Item.source ++ rest)) false = _
      have hhash : ch ≠ '#' := by
        rintro rfl
        cases hblank
      have hquote : ch ≠ '"' := by
        rintro rfl
        cases hblank
      rw [commentStarts_bare hhash, decide_eq_false hquote, ih]
    | token t =>
      have ht : t.WellFormed := hitems (.token t) mem_cons_self
      show commentStarts (t.source ++ (chunk.flatMap Item.source ++ rest)) false = _
      rw [commentStarts_token ht.2, ih]

/-! ### Line endings -/

/-- No character of it could end a line. -/
def OneLine (text : List Char) : Prop := ∀ c ∈ text, c ≠ '\n' ∧ c ≠ '\r'

theorem ne_of_not_isControl {c : Char} (h : isControl c = false) : c ≠ '\n' ∧ c ≠ '\r' := by
  constructor <;>
  · rintro rfl
    cases h

theorem Spells.oneLine {spelling : List Char} {ch : Char} (h : Spells spelling ch) : OneLine spelling := by
  have hu : 'u' ≠ '\n' ∧ 'u' ≠ '\r' := by decide
  cases h with
  | @short esc _ h =>
    intro c hc
    obtain rfl := mem_singleton.1 hc
    constructor <;>
    · rintro rfl
      cases h
  | unicode hdigits =>
    intro c hc
    obtain rfl | hc := mem_cons.1 hc
    · exact hu
    · exact ne_of_not_isControl (hdigits.plain c hc).2.2
  | pair hhigh hlow _ _ _ =>
    intro c hc
    simp only [mem_cons, mem_append] at hc
    obtain rfl | hc | rfl | rfl | hc := hc
    · exact hu
    · exact ne_of_not_isControl (hhigh.plain c hc).2.2
    · decide
    · exact hu
    · exact ne_of_not_isControl (hlow.plain c hc).2.2

theorem Piece.WellFormed.oneLine {p : Piece} (h : p.WellFormed) : OneLine p.source := by
  cases p with
  | raw ch =>
    intro c hc
    obtain rfl := mem_singleton.1 hc
    exact ne_of_not_isControl h.2.2
  | escape spelling ch =>
    intro c hc
    obtain rfl | hc := mem_cons.1 hc
    · decide
    · exact Spells.oneLine h c hc

theorem Segment.WellFormed.oneLine {s : Segment} (h : s.WellFormed) : OneLine s.source := by
  have hq : '"' ≠ '\n' ∧ '"' ≠ '\r' := by decide
  cases s with
  | bare ch =>
    intro c hc
    obtain rfl := mem_singleton.1 hc
    exact ne_of_not_isControl h.2.2.2
  | quoted pieces =>
    intro c hc
    simp only [Segment.source, mem_cons, mem_append, mem_flatMap, not_mem_nil, or_false] at hc
    obtain rfl | ⟨p, hp, hc⟩ | rfl := hc
    · exact hq
    · exact (h p hp).oneLine c hc
    · exact hq

theorem Chunk.WellFormed.oneLine {chunk : Chunk} (h : chunk.WellFormed) : OneLine chunk.source := by
  intro c hc
  obtain ⟨item, hitem, hc⟩ := mem_flatMap.1 hc
  have hwell := h.items item hitem
  cases item with
  | blank ch =>
    obtain rfl := mem_singleton.1 hc
    constructor <;>
    · rintro rfl
      cases hwell
  | token t =>
    obtain ⟨s, hs, hc⟩ := mem_flatMap.1 hc
    exact (hwell.2 s hs).oneLine c hc

theorem stripSuffix_concat (c : Char) (l : List Char) : stripSuffix c (l ++ [c]) = some l := by
  rw [stripSuffix, getLast?_concat, if_pos rfl, dropLast_concat]

theorem stripSuffix_of_ne {c : Char} {l : List Char} (h : l.getLast? ≠ some c) : stripSuffix c l = none :=
  if_neg h

/-- A physical line without its carriage return. -/
def withoutCarriage (rawLine : List Char) : List Char := (stripSuffix '\r' rawLine).getD rawLine

theorem withoutCarriage_carriage (line : List Char) (h : line.getLast? ≠ some '\r') (cr : Bool) :
    withoutCarriage (line ++ carriage cr) = line := by
  cases cr with
  | true =>
    rw [withoutCarriage, carriage, if_pos rfl, stripSuffix_concat]
    rfl
  | false =>
    rw [withoutCarriage, carriage, if_neg Bool.false_ne_true, append_nil, stripSuffix_of_ne h]
    rfl

/-- The last physical line of a logical line, without its carriage return: what stands on it, and nothing
or a comment. -/
theorem withoutCarriage_last {l : LogicalLine} (hwell : l.WellFormed) :
    ∃ tail, IsTail tail ∧ (l.comment = none → tail = []) ∧ (l.comment ≠ none → tail ≠ []) ∧
      withoutCarriage (l.last.source ++ l.commentSource ++ carriage l.cr) = l.last.source ++ tail := by
  unfold LogicalLine.commentSource
  cases hcomment : l.comment with
  | none =>
    refine ⟨[], .inl rfl, fun _ => rfl, fun h => absurd rfl h, ?_⟩
    refine withoutCarriage_carriage (l.last.source ++ []) ?_ l.cr
    rw [append_nil]
    exact fun hlast => (hwell.last.oneLine _ (mem_of_mem_getLast? hlast)).2 rfl
  | some text =>
    by_cases hend : l.cr = false ∧ text.getLast? = some '\r'
    · obtain ⟨hcr, hlast⟩ := hend
      obtain ⟨text, rfl⟩ := (getLast?_eq_some_iff ..).1 hlast
      refine ⟨'#' :: text, .inr ⟨text, rfl⟩, nofun, fun _ => nofun, ?_⟩
      have hsplit : l.last.source ++ ('#' :: (text ++ ['\r'])) ++ carriage l.cr =
          (l.last.source ++ '#' :: text) ++ ['\r'] := by simp [hcr, carriage]
      show withoutCarriage (l.last.source ++ ('#' :: (text ++ ['\r'])) ++ carriage l.cr) = _
      rw [hsplit, withoutCarriage, stripSuffix_concat]
      rfl
    · refine ⟨'#' :: text, .inr ⟨text, rfl⟩, nofun, fun _ => nofun, ?_⟩
      show withoutCarriage (l.last.source ++ ('#' :: text) ++ carriage l.cr) = _
      by_cases hcr : l.cr = true
      · rw [hcr, withoutCarriage, carriage, if_pos rfl, stripSuffix_concat]
        rfl
      · rw [Bool.not_eq_true] at hcr
        refine withoutCarriage_carriage _ ?_ l.cr
        rw [getLast?_append_cons, getLast?_cons]
        intro hlast
        cases htext : text.getLast? with
        | none =>
          rw [htext] at hlast
          exact absurd hlast (by decide)
        | some c =>
          rw [htext] at hlast
          exact hend ⟨hcr, htext.trans hlast⟩

/-! ### The loop over the lines -/

variable (limits : ParseLimits) {may : SizeLimit → Prop}

theorem linesLoop_continued {rawLine head : List Char} (hline : withoutCarriage rawLine = head ++ ['\\'])
    {pending : Pending} (hview : commentStarts (head ++ ['\\']) pending.inQuote = (false, false))
    (lines : List (List Char)) (index : ℕ) (records : List Record) :
    ∃ start position, linesLoop limits (rawLine :: lines) index pending records =
      if limits.maxContinuations < pending.continuations + 1 then
        .error ⟨.tooLarge .logicalLine, position⟩
      else linesLoop limits lines (index + 1)
        ⟨pending.logical ++ head ++ [' '], start, pending.continuations + 1, false⟩ records := by
  refine ⟨if pending.logical = [] then min (index + 1) u32Max else pending.start,
    ⟨min (index + 1) u32Max, 1⟩, ?_⟩
  rw [linesLoop, ← withoutCarriage, hline, hview, stripSuffix_concat]
  rfl

theorem linesLoop_last {rawLine line : List Char} (hline : withoutCarriage rawLine = line) (pending : Pending)
    (hview : (commentStarts line pending.inQuote).1 = true ∨ line.getLast? ≠ some '\\')
    (lines : List (List Char)) (index : ℕ) (records : List Record) :
    ∃ start position, linesLoop limits (rawLine :: lines) index pending records =
      (parseLogicalLine limits (pending.logical ++ line) start >>= fun parsed =>
        match parsed with
        | none => linesLoop limits lines (index + 1) ⟨[], start, 0, false⟩ records
        | some record =>
          if limits.maxRecords ≤ records.length then .error ⟨.tooLarge .recordCount, position⟩
          else linesLoop limits lines (index + 1) ⟨[], start, 0, false⟩ (records ++ [record])) := by
  refine ⟨if pending.logical = [] then min (index + 1) u32Max else pending.start, ⟨min (index + 1) u32Max, 1⟩, ?_⟩
  have hnone : (stripSuffix '\\' line).filter (fun _ => !(commentStarts line pending.inQuote).1) = none := by
    obtain hcomment | hlast := hview
    · rw [hcomment]
      cases stripSuffix '\\' line <;> rfl
    · rw [stripSuffix_of_ne hlast]
      rfl
  rw [linesLoop, ← withoutCarriage, hline, hnone]
  dsimp only
  cases parseLogicalLine limits (pending.logical ++ line)
    (if pending.logical = [] then min (index + 1) u32Max else pending.start) with
  | error e => rfl
  | ok parsed => cases parsed <;> rfl

/-- **The lines that are continued** are joined, with a blank for each line ending, or there are too many
of them. -/
theorem continued_joined {continued : List (Chunk × Bool)} (hwell : ∀ c ∈ continued, c.1.WellFormed)
    (pending : Pending) (hquote : pending.inQuote = false) (lines : List (List Char)) (index : ℕ)
    (records : List Record) :
    (∃ start, linesLoop limits
        (continued.map (fun c => c.1.source ++ '\\' :: carriage c.2) ++ lines) index pending records =
      linesLoop limits lines (index + continued.length)
        ⟨pending.logical ++ continued.flatMap (fun c => c.1.source ++ [' ']), start,
          pending.continuations + continued.length, false⟩ records) ∨
    (limits.maxContinuations < pending.continuations + continued.length ∧ continued ≠ [] ∧
      ∃ position, linesLoop limits
        (continued.map (fun c => c.1.source ++ '\\' :: carriage c.2) ++ lines) index pending records =
        .error ⟨.tooLarge .logicalLine, position⟩) := by
  induction continued generalizing pending index with
  | nil =>
    refine .inl ⟨pending.start, ?_⟩
    rw [flatMap_nil, append_nil, ← hquote]
    rfl
  | cons c continued ih =>
    have hsource : withoutCarriage (c.1.source ++ '\\' :: carriage c.2) = c.1.source ++ ['\\'] := by
      rw [append_cons]
      refine withoutCarriage_carriage _ ?_ c.2
      rw [getLast?_concat]
      decide
    have hview : commentStarts (c.1.source ++ ['\\']) pending.inQuote = (false, false) := by
      rw [hquote, commentStarts_chunk (hwell c mem_cons_self)]
      rfl
    obtain ⟨start, position, hstep⟩ := linesLoop_continued limits hsource hview
      (continued.map (fun c => c.1.source ++ '\\' :: carriage c.2) ++ lines) index records
    rw [map_cons, cons_append, hstep]
    by_cases hmany : limits.maxContinuations < pending.continuations + 1
    · rw [if_pos hmany]
      refine .inr ⟨?_, nofun, position, rfl⟩
      rw [length_cons]
      omega
    · rw [if_neg hmany]
      have hrest := @ih (fun d hd => hwell d (mem_cons_of_mem c hd))
        ⟨pending.logical ++ c.1.source ++ [' '], start, pending.continuations + 1, false⟩ rfl (index + 1)
      have hlen : pending.continuations + 1 + continued.length =
          pending.continuations + (c :: continued).length := by
        rw [length_cons]
        omega
      have hindex : index + 1 + continued.length = index + (c :: continued).length := by
        rw [length_cons]
        omega
      rw [hlen, hindex] at hrest
      obtain ⟨start', hrest⟩ | ⟨htoo, -, position', hrest⟩ := hrest
      · refine .inl ⟨start', ?_⟩
        rw [hrest, flatMap_cons]
        simp only [append_assoc]
      · exact .inr ⟨htoo, nofun, position', hrest⟩

/-- What a logical line is joined to, before its comment. -/
def LogicalLine.joined (l : LogicalLine) : Chunk :=
  (l.continued.flatMap fun c => c.1 ++ [Item.blank ' ']) ++ l.last

theorem LogicalLine.joined_source (l : LogicalLine) :
    l.joined.flatMap Item.source = l.continued.flatMap (fun c => c.1.source ++ [' ']) ++ l.last.source := by
  rw [joined, flatMap_append, flatMap_assoc]
  congr 1
  refine congrArg (fun f => l.continued.flatMap f) (funext fun c => ?_)
  rw [flatMap_append]
  rfl

theorem LogicalLine.joined_tokens (l : LogicalLine) : Chunk.tokens l.joined = l.tokens := by
  rw [Chunk.tokens, joined, filterMap_append, filterMap_flatMap, LogicalLine.tokens]
  congr 1
  refine congrArg (fun f => l.continued.flatMap f) (funext fun c => ?_)
  rw [filterMap_append]
  exact append_nil _

theorem LogicalLine.WellFormed.joined {l : LogicalLine} (h : l.WellFormed) : Chunk.WellFormed l.joined := by
  have hblank : ∀ item, Item.Apart item (.blank ' ') ∧ Item.Apart (.blank ' ') item := by
    intro item
    cases item <;> exact ⟨trivial, trivial⟩
  obtain ⟨hcontinued, hlast, -, -⟩ := h
  unfold LogicalLine.joined
  generalize l.continued = continued at hcontinued
  induction continued with
  | nil => exact hlast
  | cons c continued ih =>
    have ih := ih fun d hd => hcontinued d (mem_cons_of_mem c hd)
    have hc := hcontinued c mem_cons_self
    rw [flatMap_cons, append_assoc, append_assoc]
    refine ⟨fun item hitem => ?_, ?_⟩
    · obtain hitem | hitem := mem_append.1 hitem
      · exact hc.items item hitem
      · obtain rfl | hitem := mem_cons.1 hitem
        · rfl
        · exact ih.items item hitem
    · refine isChain_append.2 ⟨hc.apart, ?_, fun x _ y hy => ?_⟩
      · exact isChain_cons.2 ⟨fun y _ => (hblank y).2, ih.apart⟩
      · cases hy
        exact (hblank x).1

/-- A joined line makes the record that was written on it. -/
theorem parseLogicalLine_outcome (hmay : ∀ what, what ≠ .logicalLine → may what) {l : LogicalLine}
    (hwell : l.WellFormed) {e : Option Entry} (hwrites : Writes l.tokens e)
    (hproper : ∀ entry ∈ e, entry.Proper) {tail : List Char} (htail : IsTail tail) (lineNo : ℕ) :
    Outcome ((∀ t ∈ l.tokens, byteLen t.text ≤ limits.maxValueBytes) ∧
        ∀ entry ∈ e, entry.fields.length ≤ limits.maxFieldsPerRecord) may
      (parseLogicalLine limits (l.joined.flatMap Item.source ++ tail) lineNo)
      fun r => r.map Record.entry = e := by
  obtain ⟨hitems, hapart⟩ := hwell.joined
  have htokens := tokensLoop_outcome limits (hmay .value nofun) lineNo hitems hapart htail le_rfl 0 []
  rw [l.joined_tokens] at htokens
  exact htokens.bind (fun tokens h => recordOf_outcome limits (hmay .fieldCount nofun) lineNo hwrites h hproper) id

/-- **The physical lines of a logical line**, and what comes after them. -/
theorem lineLoop_outcome {fits rest : Prop} (hmay : ∀ what, what ≠ .logicalLine → may what)
    {l : LogicalLine} (hcontinued : l.continued ≠ [] → may .logicalLine) (hwell : l.WellFormed)
    {e : Option Entry} (hwrites : Writes l.tokens e) (hproper : ∀ entry ∈ e, entry.Proper)
    {lines : List (List Char)} {records : List Record} {Q : List Record → Prop}
    (hrest : ∀ index start (added : Option Record), added.map Record.entry = e →
      Outcome rest may (linesLoop limits lines index ⟨[], start, 0, false⟩ (records ++ added.toList)) Q)
    (hfits : fits → l.continued.length ≤ limits.maxContinuations ∧
      ((∀ t ∈ l.tokens, byteLen t.text ≤ limits.maxValueBytes) ∧
        ∀ entry ∈ e, entry.fields.length ≤ limits.maxFieldsPerRecord) ∧
      (e ≠ none → records.length < limits.maxRecords) ∧ rest) (index start : ℕ) :
    Outcome fits may (linesLoop limits (l.physical ++ lines) index ⟨[], start, 0, false⟩ records) Q := by
  obtain ⟨tail, htail, hnone, hsome, hlast⟩ := withoutCarriage_last hwell
  rw [LogicalLine.physical, append_assoc]
  obtain ⟨start, hjoined⟩ | ⟨hmany, hne, position, hfail⟩ :=
    continued_joined limits hwell.continued ⟨[], start, 0, false⟩ rfl
      ([l.last.source ++ l.commentSource ++ carriage l.cr] ++ lines) index records
  · rw [hjoined]
    have hview : (commentStarts (l.last.source ++ tail) false).1 = true ∨
        (l.last.source ++ tail).getLast? ≠ some '\\' := by
      rw [commentStarts_chunk hwell.last]
      obtain rfl | ⟨text, rfl⟩ := htail
      · refine .inr ?_
        rw [append_nil]
        refine hwell.closed ?_
        by_contra hcomment
        exact hsome hcomment rfl
      · exact .inl rfl
    obtain ⟨start, position, hloop⟩ := linesLoop_last limits hlast
      ⟨[] ++ l.continued.flatMap (fun c => c.1.source ++ [' ']), start, 0 + l.continued.length, false⟩ hview lines
      (index + l.continued.length) records
    have hline : [] ++ l.continued.flatMap (fun c => c.1.source ++ [' ']) ++ (l.last.source ++ tail) =
        l.joined.flatMap Item.source ++ tail := by
      rw [l.joined_source, nil_append, append_assoc]
    rw [singleton_append, hloop, hline]
    refine (parseLogicalLine_outcome limits hmay hwell hwrites hproper htail start).bind
      (q := (e ≠ none → records.length < limits.maxRecords) ∧ rest) (fun added hadded => ?_)
      fun hf => ⟨(hfits hf).2.1, (hfits hf).2.2⟩
    cases added with
    | none =>
      have hnext := hrest (index + l.continued.length + 1) start none hadded
      rw [Option.toList_none, append_nil] at hnext
      exact hnext.mono And.right fun _ => id
    | some record =>
      refine Outcome.check (hmay .recordCount nofun)
        (fun _ => hrest (index + l.continued.length + 1) start (some record) hadded) fun hf => ⟨?_, hf.2⟩
      refine Nat.not_le.2 (hf.1 ?_)
      rw [← hadded]
      exact Option.some_ne_none _
  · rw [hfail]
    rw [Nat.zero_add] at hmany
    exact .inr ⟨fun hf => absurd (hfits hf).1 (Nat.not_le.2 hmany), .logicalLine, position,
      hcontinued hne, rfl⟩

/-! ### Layouts -/

/-- The layout keeps to the limits. -/
structure Layout.Fits (limits : ParseLimits) (layout : Layout) (entries : List Entry) : Prop where
  document : byteLen layout.text ≤ limits.maxBytes
  logicalLines : ∀ l ∈ layout, l.continued.length ≤ limits.maxContinuations
  values : ∀ l ∈ layout, ∀ t ∈ l.tokens, byteLen t.text ≤ limits.maxValueBytes
  fields : ∀ e ∈ entries, e.fields.length ≤ limits.maxFieldsPerRecord
  records : entries.length ≤ limits.maxRecords

/-- No physical line has a line feed in it. -/
theorem LogicalLine.WellFormed.physical {l : LogicalLine} (h : l.WellFormed) :
    ∀ line ∈ l.physical, '\n' ∉ line := by
  have hcarriage : ∀ cr, '\n' ∉ carriage cr := by decide
  have hchunk : ∀ c : Chunk, c.WellFormed → '\n' ∉ c.source := fun c hc hmem => (hc.oneLine _ hmem).1 rfl
  intro line hline hmem
  obtain hline | hline := mem_append.1 hline
  · obtain ⟨c, hc, rfl⟩ := mem_map.1 hline
    obtain hmem | hmem := mem_append.1 hmem
    · exact hchunk c.1 (h.continued c hc) hmem
    · obtain hslash | hmem := mem_cons.1 hmem
      · exact absurd hslash (by decide)
      · exact hcarriage c.2 hmem
  · obtain rfl := mem_singleton.1 hline
    obtain hmem | hmem := mem_append.1 hmem
    · obtain hmem | hmem := mem_append.1 hmem
      · exact hchunk l.last h.last hmem
      · rw [LogicalLine.commentSource] at hmem
        cases hcomment : l.comment with
        | none =>
          rw [hcomment] at hmem
          cases hmem
        | some text =>
          rw [hcomment] at hmem
          obtain hhash | hmem := mem_cons.1 hmem
          · exact absurd hhash (by decide)
          · exact h.comment text hcomment hmem
    · exact hcarriage l.cr hmem

theorem linesLoop_outcome (hmay : ∀ what, what ≠ .logicalLine → may what) {layout : Layout}
    (hcontinued : ∀ l ∈ layout, l.continued ≠ [] → may .logicalLine) (hwell : ∀ l ∈ layout, l.WellFormed)
    {written : List (Option Entry)} (hwrites : Forall₂ (fun l e => Config.Writes l.tokens e) layout written)
    (hproper : ∀ e ∈ written.reduceOption, e.Proper) (index start : ℕ) (records : List Record) :
    Outcome ((∀ l ∈ layout, l.continued.length ≤ limits.maxContinuations ∧
        ∀ t ∈ l.tokens, byteLen t.text ≤ limits.maxValueBytes) ∧
        (∀ e ∈ written.reduceOption, e.fields.length ≤ limits.maxFieldsPerRecord) ∧
        records.length + written.reduceOption.length ≤ limits.maxRecords) may
      (linesLoop limits (layout.flatMap LogicalLine.physical) index ⟨[], start, 0, false⟩ records)
      fun rs => rs.map Record.entry = records.map Record.entry ++ written.reduceOption := by
  induction hwrites generalizing index start records with
  | nil =>
    rw [flatMap_nil, linesLoop, if_pos rfl]
    exact .ok (append_nil _).symm
  | @cons l e layout written hl hwrites ih =>
    have ih := ih (fun m hm => hcontinued m (mem_cons_of_mem l hm))
      (fun m hm => hwell m (mem_cons_of_mem l hm))
    rw [flatMap_cons]
    have hcons : (e :: written).reduceOption = e.toList ++ written.reduceOption := by cases e <;> rfl
    rw [hcons] at hproper ⊢
    have hproperHead : ∀ entry ∈ e, entry.Proper :=
      fun entry he => hproper entry (mem_append_left _ (Option.mem_toList.2 he))
    have ih := ih fun entry he => hproper entry (mem_append_right _ he)
    have hrest : ∀ index start (added : Option Record), added.map Record.entry = e →
        Outcome ((∀ m ∈ layout, m.continued.length ≤ limits.maxContinuations ∧
            ∀ t ∈ m.tokens, byteLen t.text ≤ limits.maxValueBytes) ∧
            (∀ e ∈ written.reduceOption, e.fields.length ≤ limits.maxFieldsPerRecord) ∧
            records.length + e.toList.length + written.reduceOption.length ≤ limits.maxRecords) may
          (linesLoop limits (layout.flatMap LogicalLine.physical) index ⟨[], start, 0, false⟩
            (records ++ added.toList))
          fun rs => rs.map Record.entry =
            records.map Record.entry ++ (e.toList ++ written.reduceOption) := by
      rintro index start added rfl
      refine (ih index start (records ++ added.toList)).mono (fun hf => ⟨hf.1, hf.2.1, ?_⟩) fun rs hrs => ?_
      · rw [length_append]
        cases added <;> exact hf.2.2
      · rw [hrs, map_append, append_assoc]
        cases added <;> rfl
    refine lineLoop_outcome limits hmay (hcontinued l mem_cons_self) (hwell l mem_cons_self) hl hproperHead hrest
      ?_ index start
    rintro ⟨hlines, hfields, hcount⟩
    rw [length_append] at hcount
    refine ⟨(hlines l mem_cons_self).1, ⟨(hlines l mem_cons_self).2, fun entry he => ?_⟩, fun hne => ?_,
      fun m hm => hlines m (mem_cons_of_mem l hm), fun entry he => hfields entry (mem_append_right _ he), ?_⟩
    · exact hfields entry (mem_append_left _ (Option.mem_toList.2 he))
    · obtain ⟨entry, rfl⟩ := Option.ne_none_iff_exists'.1 hne
      rw [Option.toList_some, length_singleton] at hcount
      omega
    · omega

/-- **A layout is read as what it writes**, or a size limit is named that it does not keep to; that for
the logical line only where a line is continued. -/
theorem layout_outcome {layout : Layout} (hne : layout ≠ []) (hwell : ∀ l ∈ layout, l.WellFormed)
    {entries : List Entry} (hwrites : layout.Writes entries) (hproper : ∀ e ∈ entries, e.Proper) :
    Outcome (layout.Fits limits entries)
      (fun what => what = .logicalLine → ∃ l ∈ layout, l.continued ≠ [])
      (parse limits layout.text) fun d => d.records.map Record.entry = entries := by
  obtain ⟨written, hwrites, rfl⟩ := hwrites
  have hphysical : ∀ line ∈ layout.flatMap LogicalLine.physical, '\n' ∉ line := by
    intro line hline
    obtain ⟨l, hl, hmem⟩ := mem_flatMap.1 hline
    exact (hwell l hl).physical line hmem
  have hsplit : layout.text.splitOn '\n' = layout.flatMap LogicalLine.physical := by
    refine splitOn_intercalate '\n' hphysical ?_
    obtain ⟨l, layout, rfl⟩ := exists_cons_of_ne_nil hne
    rw [flatMap_cons, LogicalLine.physical]
    simp
  have hmay : ∀ what : SizeLimit, what ≠ .logicalLine →
      (what = .logicalLine → ∃ l ∈ layout, l.continued ≠ []) := fun what hw h => absurd h hw
  have hlines := linesLoop_outcome limits hmay (fun l hl hc _ => ⟨l, hl, hc⟩) hwell hwrites hproper 0 0 []
  rw [parse, hsplit]
  refine Outcome.check (hmay .document nofun) (fun _ => hlines.bind (q := True) (fun rs hrs => .ok hrs)
    fun hf => ⟨hf, trivial⟩) fun hf => ⟨Nat.not_lt.2 hf.document, fun l hl => ?_, hf.fields, ?_⟩
  · exact ⟨hf.logicalLines l hl, hf.values l hl⟩
  · rw [length_nil, Nat.zero_add]
    exact hf.records

/-- **Layout never changes a configuration.**  However some records are written — blanks between tokens,
tokens bare or quoted with any escapes, lines continued between tokens, either line ending, lines with
nothing on them, and comments of any text — parsing returns these records, in order. -/
theorem layout_parses {layout : Layout} (hne : layout ≠ []) (hwell : ∀ l ∈ layout, l.WellFormed)
    {entries : List Entry} (hwrites : layout.Writes entries) (hproper : ∀ e ∈ entries, e.Proper)
    (hfits : layout.Fits limits entries) :
    ∃ d, parse limits layout.text = .ok d ∧ d.records.map Record.entry = entries :=
  (layout_outcome limits hne hwell hwrites hproper).resolve_right fun hno => hno.1 hfits

namespace Sample

/-- A bare token. -/
def bare (text : String) : Token := text.toList.map Segment.bare

/-- A comment that ends in a backslash, then one record on two lines, its value quoted, with a hash and
an escape, and a comment with a quote after it. -/
def layout : Layout :=
  [⟨[], [], some " C:\\".toList, true⟩,
    ⟨[([.token (bare "host"), .blank '\t', .token (bare "id=spark")], false)],
      [.blank ' ', .token (bare "status=" ++
        [Segment.quoted [.raw '#', .escape ['u', '0', '0', '6', '9'] 'i']]), .blank ' '],
      some "\"on".toList, false⟩]

example : String.ofList layout.text =
    "# C:\\\x0d\nhost\tid=spark\\\n status=\"#\\u0069\" #\"on" := by decide +kernel

theorem bare_wellFormed {text : String}
    (h : text.toList.all fun c => !isBlank c && c ≠ '#' && c ≠ '"' && !isControl c) :
    ∀ s ∈ bare text, s.WellFormed := by
  intro s hs
  obtain ⟨c, hc, rfl⟩ := mem_map.1 hs
  have hplain := all_eq_true.1 h c hc
  simp only [Bool.and_eq_true, Bool.not_eq_true', decide_eq_true_eq] at hplain
  exact ⟨hplain.1.1.1, hplain.1.1.2, hplain.1.2, hplain.2⟩

theorem layout_wellFormed : ∀ l ∈ layout, l.WellFormed := by
  have hhost : Token.WellFormed (bare "host") := ⟨by decide, bare_wellFormed (by decide +kernel)⟩
  have hid : Token.WellFormed (bare "id=spark") := ⟨by decide, bare_wellFormed (by decide +kernel)⟩
  have hstatus : Token.WellFormed (bare "status=" ++
      [Segment.quoted [.raw '#', .escape ['u', '0', '0', '6', '9'] 'i']]) := by
    refine ⟨by decide, fun s hs => ?_⟩
    obtain hs | hs := mem_append.1 hs
    · exact bare_wellFormed (by decide +kernel) s hs
    · obtain rfl := mem_singleton.1 hs
      intro p hp
      obtain rfl | hp := mem_cons.1 hp
      · exact ⟨by decide, by decide, by decide⟩
      · obtain rfl := mem_singleton.1 hp
        exact .unicode (.digits (i := 0) (j := 0) (k := 6) (l := 9) (by decide) (by decide) (by decide) (by decide))
  rintro l hl
  obtain rfl | hl := mem_cons.1 hl
  · exact ⟨nofun, ⟨nofun, .nil⟩, nofun, by decide⟩
  · obtain rfl := mem_singleton.1 hl
    refine ⟨fun c hc => ?_, ⟨fun item hitem => ?_, by simp [Item.Apart]⟩, nofun, by decide⟩
    · obtain rfl := mem_singleton.1 hc
      refine ⟨fun item hitem => ?_, by simp [Item.Apart]⟩
      simp only [mem_cons, not_mem_nil, or_false] at hitem
      obtain rfl | rfl | rfl := hitem
      · exact hhost
      · rfl
      · exact hid
    · simp only [mem_cons, not_mem_nil, or_false] at hitem
      obtain rfl | rfl | rfl := hitem
      · rfl
      · exact hstatus
      · rfl

/-- The layout is read as the record. -/
theorem layout_read : ∃ d, parse .default layout.text = .ok d ∧
    d.records.map Record.entry = [⟨"host", [("id", "spark"), ("status", "#i")]⟩] := by
  refine layout_parses .default (by decide) layout_wellFormed
    ⟨[none, some ⟨"host", [("id", "spark"), ("status", "#i")]⟩], ?_, rfl⟩ ?_ ?_
  · exact .cons trivial (.cons ⟨by decide, by decide⟩ .nil)
  · intro e he
    obtain rfl := mem_singleton.1 he
    exact ⟨by decide, by decide, by decide⟩
  · exact ⟨by decide, by decide, by decide, by decide, by decide⟩

end Sample

end HypeLlm.Config
