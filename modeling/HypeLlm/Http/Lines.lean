import HypeLlm.Http.Client
import HypeLlm.Lib.Results

/-!
# The lines of a head

Lines without control characters, each with its line end, and an empty line: the head ends there and
nowhere before, and splitting it gives the lines back.  A header line gives back its name and its
value without the space around it.

* `findHeadEnd_lines`, `splitCrlf_lines` — a head of lines is found and split;
* `parseHeaderLine_field` — one header line;
* **`parseHeaderLines_fields`** — headers without a repeated deciding name are read back.
-/

namespace HypeLlm.Http

open HypeLlm.Results List

/-! ### Lines -/

/-- A line that has no byte of a line end, and no zero. -/
def Plain (line : List UInt8) : Prop := ∀ b ∈ line, b ≠ 0x0D ∧ b ≠ 0x0A ∧ b ≠ 0x00

theorem Plain.append {a b : List UInt8} (ha : Plain a) (hb : Plain b) : Plain (a ++ b) := by
  intro x hx
  obtain hx | hx := mem_append.1 hx
  · exact ha x hx
  · exact hb x hx

/-- Lines with a line end between them. -/
def linesText (first : List UInt8) (rest : List (List UInt8)) : List UInt8 :=
  first ++ rest.flatMap (crlf ++ ·)

theorem linesText_cons (first line : List UInt8) (rest : List (List UInt8)) :
    linesText first (line :: rest) = first ++ (crlf ++ linesText line rest) := by
  rw [linesText, linesText, flatMap_cons, append_assoc]

/-- Lines that each have a line end, and an empty line after them. -/
theorem lines_ended (first : List UInt8) (rest : List (List UInt8)) :
    first ++ crlf ++ rest.flatMap (· ++ crlf) ++ crlf = linesText first rest ++ (crlf ++ crlf) := by
  induction rest generalizing first with
  | nil =>
    simp only [linesText, flatMap_nil, append_nil, append_assoc]
  | cons line rest ih =>
    have hrest := ih line
    simp only [append_assoc] at hrest
    rw [linesText_cons]
    simp only [flatMap_cons, append_assoc, hrest]

theorem findHeadEnd_plain {line : List UInt8} (h : Plain line) (rest : List UInt8) :
    findHeadEnd (line ++ rest) = (findHeadEnd rest).map (· + line.length) := by
  induction line with
  | nil => simp
  | cons b line ih =>
    have hb := (h b mem_cons_self).1
    have hstart : (crlf ++ crlf).isPrefixOf (b :: (line ++ rest)) = false := by
      have hne : (0x0D == b) = false := beq_eq_false_iff_ne.2 hb.symm
      show ((0x0D == b) && _) = false
      rw [hne, Bool.false_and]
    rw [cons_append, findHeadEnd, hstart, ih fun x hx => h x (mem_cons_of_mem b hx), length_cons]
    cases findHeadEnd rest with
    | none => rfl
    | some n => rfl

/-- A line end before a line is not the end of the head. -/
theorem findHeadEnd_crlf {b : UInt8} (hb : b ≠ 0x0D) (rest : List UInt8) :
    findHeadEnd (crlf ++ b :: rest) = (findHeadEnd (b :: rest)).map (· + 2) := by
  have hne : (0x0D == b) = false := beq_eq_false_iff_ne.2 hb.symm
  have hfirst : (crlf ++ crlf).isPrefixOf (0x0D :: 0x0A :: b :: rest) = false := by
    show ((0x0D == (0x0D : UInt8)) && ((0x0A == (0x0A : UInt8)) && ((0x0D == b) && _))) = false
    rw [hne, Bool.false_and, Bool.and_false, Bool.and_false]
  have hsecond : (crlf ++ crlf).isPrefixOf (0x0A :: b :: rest) = false := rfl
  show findHeadEnd (0x0D :: 0x0A :: b :: rest) = _
  rw [findHeadEnd, hfirst, findHeadEnd, hsecond]
  cases findHeadEnd (b :: rest) with
  | none => rfl
  | some n => rfl

theorem findHeadEnd_lines {first : List UInt8} {rest : List (List UInt8)} (hfirst : Plain first)
    (hrest : ∀ line ∈ rest, Plain line ∧ line ≠ []) (body : List UInt8) :
    findHeadEnd (linesText first rest ++ (crlf ++ crlf) ++ body) =
      some ((linesText first rest).length + 4) := by
  induction rest generalizing first with
  | nil =>
    simp only [linesText, flatMap_nil, append_nil, append_assoc, findHeadEnd_plain hfirst]
    show some (4 + first.length) = _
    rw [Nat.add_comm]
  | cons line rest ih =>
    obtain ⟨hplain, hne⟩ := hrest line mem_cons_self
    obtain ⟨b, line, rfl⟩ := exists_cons_of_ne_nil hne
    have hfind := ih hplain fun l hl => hrest l (mem_cons_of_mem _ hl)
    have hcons : linesText (b :: line) rest = b :: linesText line rest := rfl
    rw [hcons, cons_append, cons_append] at hfind
    rw [linesText_cons, hcons, append_assoc, append_assoc, findHeadEnd_plain hfirst, append_assoc,
      cons_append, ← append_assoc, findHeadEnd_crlf (hplain b mem_cons_self).1, hfind]
    simp only [Option.map_some, length_append, length_cons, crlf, length_nil]
    congr 1
    omega

theorem splitCrlf_plain (bad : HttpErrorKind) {line : List UInt8} (h : Plain line)
    (acc : List UInt8) (hne : acc ++ line ≠ []) : splitCrlf bad acc line = .ok [acc ++ line] := by
  induction line generalizing acc with
  | nil =>
    rw [append_nil] at hne ⊢
    rw [splitCrlf, if_neg hne]
  | cons b line ih =>
    obtain ⟨hcr, hlf, -⟩ := h b mem_cons_self
    cases line with
    | nil => rw [splitCrlf, if_neg (not_or.2 ⟨hcr, hlf⟩)]
    | cons c line =>
      rw [splitCrlf, if_neg (fun e => hcr e.1), if_neg (not_or.2 ⟨hcr, hlf⟩),
        ih (fun x hx => h x (mem_cons_of_mem b hx)) (acc ++ [b]) (by simp), append_assoc]
      rfl

theorem splitCrlf_line (bad : HttpErrorKind) {line : List UInt8} (h : Plain line)
    (acc rest : List UInt8) :
    splitCrlf bad acc (line ++ (crlf ++ rest)) = (splitCrlf bad [] rest).map ((acc ++ line) :: ·) := by
  induction line generalizing acc with
  | nil =>
    rw [append_nil]
    show splitCrlf bad acc (0x0D :: 0x0A :: rest) = _
    rw [splitCrlf, if_pos ⟨rfl, rfl⟩]
  | cons b line ih =>
    obtain ⟨hcr, hlf, -⟩ := h b mem_cons_self
    obtain ⟨c, more, hmore⟩ : ∃ c more, line ++ (crlf ++ rest) = c :: more :=
      exists_cons_of_ne_nil (append_ne_nil_of_right_ne_nil _ (cons_ne_nil _ _))
    have hrest := ih (fun x hx => h x (mem_cons_of_mem b hx)) (acc ++ [b])
    rw [hmore] at hrest
    rw [cons_append, hmore, splitCrlf, if_neg (fun e => hcr e.1), if_neg (not_or.2 ⟨hcr, hlf⟩), hrest,
      append_assoc]
    rfl

theorem splitCrlf_lines (bad : HttpErrorKind) {first : List UInt8} {rest : List (List UInt8)}
    (hfirst : Plain first ∧ first ≠ []) (hrest : ∀ line ∈ rest, Plain line ∧ line ≠ []) :
    splitCrlf bad [] (linesText first rest) = .ok (first :: rest) := by
  induction rest generalizing first with
  | nil =>
    rw [linesText, flatMap_nil, append_nil]
    exact splitCrlf_plain bad hfirst.1 [] hfirst.2
  | cons line rest ih =>
    have htail := ih (hrest line mem_cons_self) fun l hl => hrest l (mem_cons_of_mem _ hl)
    rw [linesText_cons, splitCrlf_line bad hfirst.1, htail]
    rfl

theorem linesText_not_contains {first : List UInt8} {rest : List (List UInt8)} (hfirst : Plain first)
    (hrest : ∀ line ∈ rest, Plain line ∧ line ≠ []) : (linesText first rest).contains 0x00 = false := by
  rw [contains_eq_mem, decide_eq_false_iff_not]
  intro hmem
  obtain hmem | hmem := mem_append.1 hmem
  · exact (hfirst _ hmem).2.2 rfl
  · obtain ⟨line, hline, hmem⟩ := mem_flatMap.1 hmem
    obtain hmem | hmem := mem_append.1 hmem
    · revert hmem
      decide
    · exact ((hrest line hline).1 _ hmem).2.2 rfl

/-! ### Names and values -/

theorem toNat_ofNat_char {n : ℕ} (h : n < 128) : (Char.ofNat n).toNat = n := by
  have hvalid : n.isValidChar := .inl (by omega)
  rw [Char.ofNat, dif_pos hvalid]
  rfl

theorem isTokenByte_bounds {b : UInt8} (h : isTokenByte b = true) :
    0x21 ≤ b.toNat ∧ b.toNat ≤ 0x7E ∧ b.toNat ≠ 0x3A := by
  simp only [isTokenByte, isAsciiAlphanumeric, isAsciiDigit, Bool.or_eq_true, decide_eq_true_eq,
    contains_eq_mem] at h
  obtain ((h | h) | h) | h := h
  · omega
  · omega
  · omega
  · fin_cases h <;> decide

theorem isFieldValueByte_plain {b : UInt8} (h : isFieldValueByte b = true) :
    b ≠ 0x0D ∧ b ≠ 0x0A ∧ b ≠ 0x00 := by
  refine ⟨?_, ?_, ?_⟩
  · rintro rfl
    revert h
    decide
  · rintro rfl
    revert h
    decide
  · rintro rfl
    revert h
    decide

theorem isTokenByte_isFieldValueByte {b : UInt8} (h : isTokenByte b = true) :
    isFieldValueByte b = true := by
  have hb := isTokenByte_bounds h
  simp only [isFieldValueByte, Bool.or_eq_true, decide_eq_true_eq]
  exact .inl (.inr (by omega))

/-- A character that names may have. -/
def TokenChar (c : Char) : Prop := c.toNat < 128 ∧ isTokenByte (UInt8.ofNat c.toNat) = true

theorem isToken_encode_iff {s : List Char} :
    isToken (Utf8.encode s) = true ↔ s ≠ [] ∧ ∀ c ∈ s, TokenChar c := by
  rw [isToken, Bool.and_eq_true, all_eq_true]
  constructor
  · rintro ⟨hne, hall⟩
    refine ⟨?_, ?_⟩
    · rintro rfl
      cases hne
    · intro c hc
      by_cases hlow : c.toNat < 128
      · refine ⟨hlow, hall _ (mem_flatMap.2 ⟨c, hc, ?_⟩)⟩
        rw [Utf8.encodeChar_ascii hlow]
        exact mem_singleton.2 rfl
      · obtain ⟨first, rest, hbytes, hfirst, -⟩ := Utf8.encodeChar_wide (not_lt.1 hlow)
        have hmem : first ∈ Utf8.encode s := mem_flatMap.2 ⟨c, hc, by rw [hbytes]; exact mem_cons_self⟩
        have hbound := isTokenByte_bounds (hall first hmem)
        omega
  · rintro ⟨hne, hall⟩
    refine ⟨?_, ?_⟩
    · cases hbytes : Utf8.encode s with
      | nil => exact absurd (Utf8.encode_eq_nil hbytes) hne
      | cons b bs => rfl
    · intro b hb
      obtain ⟨c, hc, hb⟩ := mem_flatMap.1 hb
      rw [Utf8.encodeChar_ascii (hall c hc).1, mem_singleton] at hb
      rw [hb]
      exact (hall c hc).2

/-- One character in lower case. -/
def lowerChar (c : Char) : Char :=
  if 0x41 ≤ c.toNat ∧ c.toNat ≤ 0x5A then Char.ofNat (c.toNat + 32) else c

theorem toAsciiLowercase_eq (s : List Char) : toAsciiLowercase s = s.map lowerChar := rfl

theorem tokenChar_lower {c : Char} (h : TokenChar c) : TokenChar (lowerChar c) := by
  rw [lowerChar]
  split
  · rename_i hupper
    have htoNat := toNat_ofNat_char (show c.toNat + 32 < 128 by omega)
    have hbyte : (UInt8.ofNat (c.toNat + 32)).toNat = c.toNat + 32 := by
      rw [UInt8.toNat_ofNat', Nat.mod_eq_of_lt (by omega)]
    rw [TokenChar, htoNat]
    refine ⟨by omega, ?_⟩
    simp only [isTokenByte, isAsciiAlphanumeric, Bool.or_eq_true, decide_eq_true_eq, hbyte]
    exact .inl (.inr (by omega))
  · exact h

theorem lowerChar_lowerChar (c : Char) : lowerChar (lowerChar c) = lowerChar c := by
  by_cases hupper : 0x41 ≤ c.toNat ∧ c.toNat ≤ 0x5A
  · have htoNat := toNat_ofNat_char (show c.toNat + 32 < 128 by omega)
    rw [lowerChar, lowerChar, if_pos hupper, htoNat, if_neg (by omega)]
  · rw [lowerChar, lowerChar, if_neg hupper, if_neg hupper]

theorem toAsciiLowercase_idem (s : List Char) :
    toAsciiLowercase (toAsciiLowercase s) = toAsciiLowercase s := by
  simp only [toAsciiLowercase_eq, map_map]
  congr 1
  funext c
  exact lowerChar_lowerChar c

theorem isToken_toAsciiLowercase {s : List Char} (h : isToken (Utf8.encode s) = true) :
    isToken (Utf8.encode (toAsciiLowercase s)) = true := by
  obtain ⟨hne, hall⟩ := isToken_encode_iff.1 h
  refine isToken_encode_iff.2 ⟨by rw [toAsciiLowercase_eq]; exact mt map_eq_nil_iff.1 hne, ?_⟩
  intro c hc
  obtain ⟨c, hmem, rfl⟩ := mem_map.1 hc
  exact tokenChar_lower (hall c hmem)

/-- Headers that a builder can hold. -/
def Headers.Valid (h : Headers) : Prop :=
  ∀ e ∈ h.entries, isToken (Utf8.encode e.1) = true ∧ isFieldValue (Utf8.encode e.2) = true ∧
    toAsciiLowercase e.1 = e.1

theorem mem_trimOws {s : List Char} {c : Char} (h : c ∈ trimOws s) : c ∈ s :=
  (dropWhile_sublist _).subset (( rdropWhile_prefix _ _).subset h)

theorem isFieldValue_trimOws {s : List Char} (h : isFieldValue (Utf8.encode s) = true) :
    isFieldValue (Utf8.encode (trimOws s)) = true := by
  rw [isFieldValue, all_eq_true] at h ⊢
  intro b hb
  obtain ⟨c, hc, hb⟩ := mem_flatMap.1 hb
  exact h b (mem_flatMap.2 ⟨c, mem_trimOws hc, hb⟩)

theorem trimOws_space (s : List Char) : trimOws (' ' :: s) = trimOws s := rfl

/-- The line of a header, without its end. -/
def fieldLine (e : List Char × List Char) : List UInt8 :=
  Utf8.encode e.1 ++ [0x3A, 0x20] ++ Utf8.encode e.2

theorem fieldLines_eq (h : Headers) :
    fieldLines h = (h.entries.map fieldLine).flatMap (· ++ crlf) := by
  rw [fieldLines, flatMap_map]
  rfl

theorem fieldLine_plain {e : List Char × List Char} (hname : isToken (Utf8.encode e.1) = true)
    (hvalue : isFieldValue (Utf8.encode e.2) = true) : Plain (fieldLine e) ∧ fieldLine e ≠ [] := by
  rw [isToken, Bool.and_eq_true, all_eq_true] at hname
  rw [isFieldValue, all_eq_true] at hvalue
  refine ⟨Plain.append (Plain.append ?_ ?_) ?_, ?_⟩
  · exact fun b hb => isFieldValueByte_plain (isTokenByte_isFieldValueByte (hname.2 b hb))
  · intro b hb
    obtain rfl | hb := mem_cons.1 hb
    · decide
    · obtain rfl := mem_singleton.1 hb
      decide
  · exact fun b hb => isFieldValueByte_plain (hvalue b hb)
  · exact append_ne_nil_of_left_ne_nil (append_ne_nil_of_right_ne_nil _ (cons_ne_nil _ _)) _

theorem splitField_append {name value : List UInt8} {sep : UInt8} (h : sep ∉ name) :
    splitField (name ++ sep :: value) sep = some (name, value) := by
  have hne : ∀ b ∈ name, (decide (b ≠ sep)) = true := by
    intro b hb
    rw [decide_eq_true_eq]
    rintro rfl
    exact h hb
  have hsep : decide (sep ≠ sep) = false := by simp
  have hdrop : (name ++ sep :: value).dropWhile (· ≠ sep) = sep :: value := by
    rw [dropWhile_append_of_pos hne, dropWhile_cons_of_neg (by simp)]
  have htake : (name ++ sep :: value).takeWhile (· ≠ sep) = name := by
    rw [takeWhile_append_of_pos hne, takeWhile_cons_of_neg (by simp), append_nil]
  rw [splitField, hdrop]
  simp only [htake]

/-- **A header line is read back**, without the space around its value. -/
theorem parseHeaderLine_field {e : List Char × List Char} (hname : isToken (Utf8.encode e.1) = true)
    (hvalue : isFieldValue (Utf8.encode e.2) = true) (headers : Headers) :
    parseHeaderLine (fieldLine e) headers = headers.append e.1 (trimOws e.2) := by
  have hbytes := hname
  rw [isToken, Bool.and_eq_true, all_eq_true] at hbytes
  obtain ⟨-, hall⟩ := hbytes
  obtain ⟨first, more, hcons⟩ : ∃ first more, Utf8.encode e.1 = first :: more := by
    refine exists_cons_of_ne_nil ?_
    intro hnil
    rw [hnil] at hname
    cases hname
  have hline : fieldLine e = Utf8.encode e.1 ++ 0x3A :: Utf8.encode (' ' :: e.2) := by
    rw [fieldLine, append_assoc]
    rfl
  have hsep : (0x3A : UInt8) ∉ Utf8.encode e.1 := by
    intro hmem
    exact (isTokenByte_bounds (hall _ hmem)).2.2 rfl
  have hspace : ∀ b ∈ Utf8.encode e.1, ¬(some b = some (0x20 : UInt8) ∨ some b = some 0x09) := by
    rintro b hb (hb' | hb')
    · obtain rfl := Option.some.inj hb'
      exact absurd (isTokenByte_bounds (hall _ hb)).1 (by decide)
    · obtain rfl := Option.some.inj hb'
      exact absurd (isTokenByte_bounds (hall _ hb)).1 (by decide)
  have hhead : (fieldLine e).head? = some first := by rw [hline, hcons]; rfl
  have hlast : ∃ b ∈ Utf8.encode e.1, (Utf8.encode e.1).getLast? = some b := by
    rw [hcons]
    exact ⟨_, getLast_mem (cons_ne_nil first more), getLast?_eq_getLast_of_ne_nil (cons_ne_nil _ _)⟩
  obtain ⟨last, hlast, hgetLast⟩ := hlast
  have hvalue' : isFieldValue (Utf8.encode (' ' :: e.2)) = true := by
    rw [Utf8.encode_cons, isFieldValue, all_append, Bool.and_eq_true]
    exact ⟨by decide, hvalue⟩
  rw [parseHeaderLine, if_neg (fieldLine_plain hname hvalue).2, hhead,
    if_neg (hspace first (by rw [hcons]; exact mem_cons_self)), hline, splitField_append hsep]
  simp only [hgetLast, if_neg (hspace last hlast), hname, hvalue', Utf8.decode_encode, Bool.not_true,
    Bool.false_eq_true, if_false, trimOws_space]

/-- Headers without a deciding name twice. -/
def NoRepeat (entries : List (List Char × List Char)) : Prop :=
  entries.Pairwise fun a b => a.1 ∈ singleValued → a.1 ≠ b.1

/-- Entries as they are read: without the space around their values. -/
def trimmed (entries : List (List Char × List Char)) : List (List Char × List Char) :=
  entries.map fun e => (e.1, trimOws e.2)

theorem append_ok {headers : Headers} {name value : List Char} (hname : isToken (Utf8.encode name) = true)
    (hvalue : isFieldValue (Utf8.encode value) = true) (hlower : toAsciiLowercase name = name)
    (hnew : name ∈ singleValued → ∀ e ∈ headers.entries, e.1 ≠ name) :
    headers.append name value = .ok ⟨headers.entries ++ [(name, value)]⟩ := by
  have hdup : (singleValued.contains name && headers.contains name) = false := by
    rw [Bool.and_eq_false_imp]
    intro hsingle
    rw [contains_eq_mem, decide_eq_true_eq] at hsingle
    rw [Headers.contains, any_eq_false]
    intro e he hsame
    exact hnew hsingle e he (beq_iff_eq.1 hsame)
  rw [Headers.append, hname, hvalue, hlower, hdup]
  rfl

theorem parseHeaderLines_from {entries : List (List Char × List Char)} {past : Headers}
    (hvalid : Headers.Valid ⟨entries⟩) (hdistinct : NoRepeat entries)
    (hpast : ∀ e ∈ entries, e.1 ∈ singleValued → ∀ p ∈ past.entries, p.1 ≠ e.1) :
    (entries.map fieldLine).foldlM (fun headers line => parseHeaderLine line headers) past =
      .ok ⟨past.entries ++ trimmed entries⟩ := by
  induction entries generalizing past with
  | nil =>
    simp only [trimmed, map_nil, append_nil]
    rfl
  | cons e entries ih =>
    obtain ⟨hname, hvalue, hlower⟩ := hvalid e mem_cons_self
    obtain ⟨hfirst, hrest⟩ := pairwise_cons.1 hdistinct
    have happend := append_ok hname (isFieldValue_trimOws hvalue) hlower (hpast e mem_cons_self)
    rw [map_cons, foldlM_cons, parseHeaderLine_field hname hvalue, happend]
    refine (ih
      (fun x hx => hvalid x (mem_cons_of_mem e hx)) hrest ?_).trans ?_
    · intro x hx hsingle p hp
      obtain hp | hp := mem_append.1 hp
      · exact hpast x (mem_cons_of_mem e hx) hsingle p hp
      · obtain rfl := mem_singleton.1 hp
        intro hsame
        have hsame : e.1 = x.1 := hsame
        rw [← hsame] at hsingle
        exact hfirst x hx hsingle hsame
    · rw [append_assoc]
      rfl

/-- **Headers are read back.** -/
theorem parseHeaderLines_fields {h : Headers} (hvalid : h.Valid) (hdistinct : NoRepeat h.entries) :
    parseHeaderLines (h.entries.map fieldLine) = .ok ⟨trimmed h.entries⟩ :=
  parseHeaderLines_from hvalid hdistinct fun _ _ _ _ hp => absurd hp not_mem_nil

end HypeLlm.Http
