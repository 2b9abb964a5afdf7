import HypeLlm.Sse.Draining

/-!
# Events survive the stream

What the encoders write is a list of lines, each ended by one line feed and none with a terminator
inside, so the parser finds the same lines again whatever the payloads, names and comments hold.
The lines of a call are then consumed to the event of the call, or to none.

* `push_lines` — feeding lines leaves them waiting;
* `consume_call` — the waiting lines of a call give its event and leave the rest;
* **`events_round_trip`** — one event for each data, event and done call, in order, whatever the
  strings are.
-/

namespace HypeLlm.Sse

open HypeLlm.Words List

/-! ### The events of calls -/

/-- Every line terminator of a payload becomes a line feed. -/
def normalise : List Char → List Char
  | [] => []
  | '\r' :: '\n' :: cs => '\n' :: normalise cs
  | '\r' :: cs => '\n' :: normalise cs
  | c :: cs => c :: normalise cs

/-- The events that calls stand for, `retry` being the last delay given since the event before. -/
def eventsOf (retry : Option UInt64) : List Call → List SseEvent
  | [] => []
  | .data payload :: calls => ⟨none, normalise payload, none, retry⟩ :: eventsOf none calls
  | .event name payload :: calls =>
    ⟨some (singleLine name), normalise payload, none, retry⟩ :: eventsOf none calls
  | .done :: calls => ⟨none, doneMarker, none, retry⟩ :: eventsOf none calls
  | .retry millis :: calls => eventsOf (some millis) calls
  | .comment _ :: calls => eventsOf retry calls
  | .keepalive :: calls => eventsOf retry calls

/-! ### What is written is lines -/

/-- The lines of a payload. -/
def payloadLines (data : List Char) : List (List Char) := (replaceCrlf data).splitOnP isTerminator

/-- The lines that a call writes. -/
def Call.lines : Call → List (List Char)
  | .data payload => (payloadLines payload).map (field dataName) ++ [[]]
  | .event name payload =>
    field eventName (singleLine name) :: (payloadLines payload).map (field dataName) ++ [[]]
  | .comment text => [':' :: singleLine text]
  | .keepalive => [[':', ' ', 'k', 'e', 'e', 'p', 'a', 'l', 'i', 'v', 'e']]
  | .retry millis => [field retryName (Decimal.text 20 millis.toNat)]
  | .done => [field dataName doneMarker, []]

/-- A line as it is written. -/
def terminated (line : List Char) : List Char := line ++ ['\n']

theorem writeDataLines_eq (data : List Char) :
    writeDataLines data =
      ((payloadLines data).map (field dataName)).flatMap terminated := by
  rw [writeDataLines]
  split
  · rename_i hdata
    rw [hdata]
    rfl
  · rw [flatMap_map]
    rfl

theorem encode_eq_lines (call : Call) : call.encode = call.lines.flatMap terminated := by
  cases call with
  | data payload => simp [Call.encode, encodeData, writeDataLines_eq, Call.lines, terminated]
  | event name payload =>
    simp [Call.encode, encodeEvent, writeDataLines_eq, Call.lines, terminated]
  | comment text => simp [Call.encode, encodeComment, Call.lines, terminated]
  | keepalive => rfl
  | retry millis => simp [Call.encode, encodeRetry, Call.lines, terminated]
  | done => rfl

/-- No terminator in a line. -/
def OneLine (line : List Char) : Prop := ∀ c ∈ line, isTerminator c = false

instance : DecidablePred OneLine := fun line =>
  decidable_of_iff (line.all (fun c => !isTerminator c) = true) (by simp [OneLine])

theorem oneLine_field {name value : List Char} (hname : OneLine name) (hvalue : OneLine value) :
    OneLine (field name value) := by
  intro c hc
  rcases mem_append.1 hc with hc | hc
  · exact hname c hc
  · rcases mem_cons.1 hc with rfl | hc
    · rfl
    · rcases mem_cons.1 hc with rfl | hc
      · rfl
      · exact hvalue c hc

theorem oneLine_singleLine (text : List Char) : OneLine (singleLine text) := by
  intro c hc
  obtain ⟨x, -, rfl⟩ := mem_map.1 hc
  split
  · rfl
  · rename_i hx
    exact Bool.eq_false_iff.2 hx

theorem oneLine_of_mem_splitOnP {text line : List Char} (h : line ∈ text.splitOnP isTerminator) :
    OneLine line := by
  induction text generalizing line with
  | nil =>
    obtain rfl := mem_singleton.1 h
    intro c hc
    cases hc
  | cons x text ih =>
    rw [splitOnP_cons_eq_if_modifyHead] at h
    split at h
    · rcases mem_cons.1 h with rfl | h
      · intro c hc
        cases hc
      · exact ih h
    · rename_i hx
      obtain ⟨first, rest, hsplit⟩ := exists_cons_of_ne_nil (splitOnP_ne_nil isTerminator text)
      rw [hsplit, modifyHead_cons] at h
      rcases mem_cons.1 h with rfl | h
      · intro c hc
        rcases mem_cons.1 hc with rfl | hc
        · exact Bool.eq_false_iff.2 hx
        · exact ih (hsplit ▸ mem_cons_self) c hc
      · exact ih (hsplit ▸ mem_cons_of_mem first h)

theorem oneLine_text (fuel n : ℕ) : OneLine (Decimal.text fuel n) := by
  intro c hc
  obtain ⟨d, hd, rfl⟩ := Decimal.digit_of_mem_text hc
  have hnat := Decimal.toNat_digitChar hd
  have hlf : Decimal.digitChar d ≠ '\n' := by
    intro heq
    rw [heq] at hnat
    have hten : '\n'.toNat = 10 := rfl
    omega
  have hcr : Decimal.digitChar d ≠ '\r' := by
    intro heq
    rw [heq] at hnat
    have hthirteen : '\r'.toNat = 13 := rfl
    omega
  simp [isTerminator, hlf, hcr]

/-- No line that a call writes has a terminator inside. -/
theorem oneLine_of_mem_lines {call : Call} {line : List Char} (h : line ∈ call.lines) :
    OneLine line := by
  have hdata : OneLine dataName := by decide
  have hevent : OneLine eventName := by decide
  have hretry : OneLine retryName := by decide
  have hnil : OneLine [] := by decide
  have hpayload :
      ∀ payload, ∀ line ∈ (payloadLines payload).map (field dataName), OneLine line := by
    intro payload line hline
    obtain ⟨value, hvalue, rfl⟩ := mem_map.1 hline
    exact oneLine_field hdata (oneLine_of_mem_splitOnP hvalue)
  cases call with
  | data payload =>
    rcases mem_append.1 h with h | h
    · exact hpayload payload line h
    · obtain rfl := mem_singleton.1 h
      exact hnil
  | event name payload =>
    rcases mem_append.1 h with h | h
    · rcases mem_cons.1 h with rfl | h
      · exact oneLine_field hevent (oneLine_singleLine name)
      · exact hpayload payload line h
    · obtain rfl := mem_singleton.1 h
      exact hnil
  | comment text =>
    obtain rfl := mem_singleton.1 h
    intro c hc
    rcases mem_cons.1 hc with rfl | hc
    · rfl
    · exact oneLine_singleLine text c hc
  | keepalive =>
    obtain rfl := mem_singleton.1 h
    decide
  | retry millis =>
    obtain rfl := mem_singleton.1 h
    exact oneLine_field hretry (oneLine_text 20 _)
  | done =>
    rcases mem_cons.1 h with rfl | h
    · decide
    · obtain rfl := mem_singleton.1 h
      exact hnil

/-- The lines of a payload, joined again. -/
theorem intercalate_splitOnP (text : List Char) :
    ['\n'].intercalate (text.splitOnP isTerminator) =
      text.map fun c => if isTerminator c then '\n' else c := by
  induction text with
  | nil => rfl
  | cons x text ih =>
    rw [splitOnP_cons_eq_if_modifyHead]
    obtain ⟨first, rest, hsplit⟩ := exists_cons_of_ne_nil (splitOnP_ne_nil isTerminator text)
    rw [hsplit] at ih ⊢
    split
    · rename_i hx
      rw [map_cons, ← ih, if_pos hx]
      simp [intercalate, intersperse]
    · rename_i hx
      rw [map_cons, ← ih, if_neg hx, modifyHead_cons]
      cases rest <;> simp [intercalate, intersperse]

theorem normalise_eq (data : List Char) :
    normalise data = (replaceCrlf data).map fun c => if isTerminator c then '\n' else c := by
  fun_induction replaceCrlf data with
  | case1 => rfl
  | case2 cs ih =>
    rw [normalise, map_cons, ih]
    rfl
  | case3 c cs hnot ih =>
    rw [map_cons, ← ih]
    by_cases hcr : c = '\r'
    · rw [hcr, normalise]
      · rfl
      · exact fun cs' => hnot cs' hcr
    · rw [normalise]
      · have hsame : (if isTerminator c then '\n' else c) = c := by
          by_cases hlf : c = '\n'
          · rw [hlf]
            rfl
          · rw [if_neg (by simp [isTerminator, hlf, hcr])]
        rw [hsame]
      · exact hnot
      · exact hcr

theorem intercalate_payloadLines (data : List Char) :
    ['\n'].intercalate (payloadLines data) = normalise data := by
  rw [payloadLines, intercalate_splitOnP, normalise_eq]

/-! ### Lines that wait -/

/-- What a line is read as. -/
def lineOf (line : List Char) : Line :=
  if line = [] then .blank
  else if line.head? = some ':' then .comment
  else .field (splitField line).1 (splitField line).2

/-- A line, its name and what it begins with fit the parser. -/
structure LineFits (limits : SseLimits) (line : List Char) : Prop where
  oneLine : OneLine line
  length : (Utf8.encode line).length ≤ limits.maxBufferBytes
  name : (Utf8.encode (splitField line).1).length ≤ limits.maxFieldNameBytes
  ascii : ∀ c, line.head? = some c → c.toNat < 128

namespace SseParser

variable {p : SseParser}

/-- A parser between two lines. -/
structure Between (p : SseParser) : Prop where
  lineBuf : p.lineBuf = []
  pendingCr : p.pendingCr = false
  failed : p.failed = none

/-- The parser after a line. -/
def withLine (p : SseParser) (line : List Char) : SseParser :=
  { p with bomPending := false, lineBuf := [], pending := p.pending ++ [lineOf line] }

theorem finishLine_encode {line : List Char} (hbuf : p.lineBuf = Utf8.encode line)
    (hname : (Utf8.encode (splitField line).1).length ≤ p.limits.maxFieldNameBytes) :
    p.finishLine = p.withLine line := by
  rw [finishLine, hbuf]
  simp only [Utf8.decode_encode]
  rw [withLine, lineOf]
  split
  · rfl
  · split
    · rfl
    · rw [if_neg (not_lt.2 hname)]

/-- Bytes that end no line are put in the buffer. -/
theorem push_bytes {bytes : List UInt8} (hplain : ∀ b ∈ bytes, b ≠ 0x0A ∧ b ≠ 0x0D)
    (hcr : p.pendingCr = false) (hfailed : p.failed = none) (hbom : p.bomPending = false)
    (hlen : p.lineBuf.length + bytes.length ≤ p.limits.maxBufferBytes) (rest : List UInt8) :
    p.push (bytes ++ rest) = { p with lineBuf := p.lineBuf ++ bytes }.push rest := by
  induction bytes generalizing p with
  | nil => rw [nil_append, append_nil]
  | cons b bytes ih =>
    have hroom : ¬ p.limits.maxBufferBytes ≤ p.lineBuf.length := by
      rw [length_cons] at hlen
      omega
    have hstep : p.pushByte b = { p with lineBuf := p.lineBuf ++ [b] } := by
      obtain ⟨hlf, hret⟩ := hplain b mem_cons_self
      simp [pushByte, bufferByte, hcr, hlf, hret, hroom, hbom]
    rw [cons_append, push, if_neg (by simp [hfailed]), hstep, ih]
    · simp
    · exact fun x hx => hplain x (mem_cons_of_mem b hx)
    · exact hcr
    · exact hfailed
    · exact hbom
    · simp only [length_append, length_cons, length_nil] at hlen ⊢
      omega

/-- The bytes of a line, none of which ends it. -/
theorem plain_encode {line : List Char} (h : OneLine line) :
    ∀ b ∈ Utf8.encode line, b ≠ 0x0A ∧ b ≠ 0x0D := by
  intro b hb
  constructor
  · rintro rfl
    exact absurd (h _ (Utf8.mem_of_mem_encode hb (by decide))) (by decide)
  · rintro rfl
    exact absurd (h _ (Utf8.mem_of_mem_encode hb (by decide))) (by decide)

theorem encode_terminated (line : List Char) :
    Utf8.encode (terminated line) = Utf8.encode line ++ [0x0A] := by
  rw [terminated, Utf8.encode_append]
  congr 1

theorem push_lf (line : List Char) (hcr : p.pendingCr = false) (hfailed : p.failed = none)
    (hbuf : p.lineBuf = Utf8.encode line)
    (hname : (Utf8.encode (splitField line).1).length ≤ p.limits.maxFieldNameBytes)
    (rest : List UInt8) : p.push (0x0A :: rest) = (p.withLine line).push rest := by
  have hsame : { p with pendingCr := false } = p := by
    rw [← hcr]
  have hbyte : p.pushByte 0x0A = p.finishLine := by
    rw [pushByte, hcr, hsame]
    rfl
  rw [push, if_neg (by simp [hfailed]), hbyte, finishLine_encode hbuf hname]

/-- **A line that is fed waits**, and the parser is between lines again. -/
theorem push_line (h : p.Between) {line : List Char} (hfits : LineFits p.limits line)
    (rest : List UInt8) :
    p.push (Utf8.encode (terminated line) ++ rest) = (p.withLine line).push rest := by
  rw [encode_terminated, append_assoc, singleton_append]
  -- Feed the first byte alone: it settles whether a byte-order mark leads the line.
  cases line with
  | nil =>
    rw [Utf8.encode_nil, nil_append]
    exact push_lf [] h.pendingCr h.failed h.lineBuf hfits.name rest
  | cons c line =>
    have hascii := hfits.ascii c rfl
    have hcons : Utf8.encode (c :: line) = UInt8.ofNat c.toNat :: Utf8.encode line := by
      rw [Utf8.encode_cons, Utf8.encodeChar_ascii hascii]
      rfl
    have hplain := plain_encode hfits.oneLine
    have hlen := hfits.length
    rw [hcons] at hplain hlen
    rw [length_cons] at hlen
    have hfirst : p.pushByte (UInt8.ofNat c.toNat) =
        { p with lineBuf := [UInt8.ofNat c.toNat], bomPending := false } := by
      obtain ⟨hlf, hret⟩ := hplain _ mem_cons_self
      have hroom : ¬ p.limits.maxBufferBytes ≤ 0 := by omega
      have hmark : (0xEF : UInt8) ≠ UInt8.ofNat c.toNat := by
        intro heq
        have hnat := congrArg UInt8.toNat heq
        rw [UInt8.toNat_ofNat', Nat.mod_eq_of_lt (by omega)] at hnat
        have hvalue : (0xEF : UInt8).toNat = 239 := rfl
        omega
      cases hbom : p.bomPending <;>
        simp [pushByte, bufferByte, h.pendingCr, h.lineBuf, hlf, hret, hroom, hbom, utf8Bom,
          hmark.symm]
    rw [hcons, cons_append, push, if_neg (by simp [h.failed]), hfirst, push_bytes]
    · rw [push_lf (c :: line)]
      · rfl
      · exact h.pendingCr
      · exact h.failed
      · exact hcons.symm
      · exact hfits.name
    · exact fun b hb => hplain b (mem_cons_of_mem _ hb)
    · exact h.pendingCr
    · exact h.failed
    · rfl
    · simp only [length_cons, length_nil]
      omega

theorem Between.withLine (h : p.Between) (line : List Char) : (p.withLine line).Between :=
  ⟨rfl, h.pendingCr, h.failed⟩

/-- **Lines that are fed wait**, in their order. -/
theorem push_lines (h : p.Between) {lines : List (List Char)}
    (hfits : ∀ line ∈ lines, LineFits p.limits line) :
    ∃ bom, p.push (Utf8.encode (lines.flatMap terminated)) =
      { p with bomPending := bom, pending := p.pending ++ lines.map lineOf } := by
  induction lines generalizing p with
  | nil =>
    refine ⟨p.bomPending, ?_⟩
    rw [flatMap_nil, Utf8.encode_nil, push, map_nil, append_nil]
  | cons line lines ih =>
    obtain ⟨bom, hrest⟩ := ih (h.withLine line) fun x hx => hfits x (mem_cons_of_mem line hx)
    refine ⟨bom, ?_⟩
    rw [flatMap_cons, Utf8.encode_append, push_line h (hfits line mem_cons_self), hrest]
    simp [SseParser.withLine, h.lineBuf]

end SseParser

/-! ### The lines of a call -/

namespace SseParser

variable {p : SseParser}

theorem splitField_field {name : List Char} (hcolon : ':' ∉ name) (value : List Char) :
    splitField (field name value) = (name, value) := by
  have hne : ∀ c ∈ name, decide (c ≠ ':') = true := by
    intro c hc
    refine decide_eq_true ?_
    rintro rfl
    exact hcolon hc
  have hdrop : (field name value).dropWhile (· ≠ ':') = ':' :: ' ' :: value := by
    rw [field, dropWhile_append_of_pos hne, dropWhile_cons_of_neg (by simp)]
  have htake : (field name value).takeWhile (· ≠ ':') = name := by
    rw [field, takeWhile_append_of_pos hne, takeWhile_cons_of_neg (by simp), append_nil]
  rw [splitField, hdrop, htake]
  rfl

theorem lineOf_field {name : List Char} (hne : name ≠ []) (hcolon : ':' ∉ name)
    (value : List Char) : lineOf (field name value) = .field name value := by
  obtain ⟨c, cs, rfl⟩ := exists_cons_of_ne_nil hne
  have hfirst : (field (c :: cs) value).head? ≠ some ':' := by
    intro hhead
    obtain rfl := Option.some.inj hhead
    exact hcolon mem_cons_self
  have hline : field (c :: cs) value ≠ [] := cons_ne_nil _ _
  rw [lineOf, if_neg hline, if_neg hfirst, splitField_field hcolon]

theorem lineOf_data (value : List Char) : lineOf (field dataName value) = .field dataName value :=
  lineOf_field (by decide) (by decide) value

/-- The parser with another event in the making. -/
def making (p : SseParser) (current : SseEvent) (sawData : Bool) : SseParser :=
  { p with current := current, sawData := sawData }

/-- A `data` line. -/
theorem takeLine_data {value : List Char}
    (hsize : (Utf8.encode (p.current.data ++ (if p.sawData then ['\n'] else []) ++ value)).length ≤
      p.limits.maxEventBytes) :
    p.takeLine (.field dataName value) = (none, p.making { p.current with
      data := p.current.data ++ (if p.sawData then ['\n'] else []) ++ value } true) := by
  have hlf : (Utf8.encode ['\n']).length = 1 := by decide
  rw [takeLine, if_pos rfl]
  cases hsaw : p.sawData with
  | true =>
    rw [hsaw, if_pos rfl] at hsize
    simp only [Utf8.encode_append, length_append, hlf] at hsize
    simp only [if_true]
    rw [if_neg (by omega)]
    rfl
  | false =>
    rw [hsaw, if_neg (by decide), append_nil, Utf8.encode_append, length_append] at hsize
    simp only [Bool.false_eq_true, if_false]
    rw [if_neg (by omega), append_nil]
    rfl

/-- The `data` lines of a payload. -/
theorem consume_payload {ls : List (List Char)} (hne : ls ≠ [])
    (hsize : (Utf8.encode (p.current.data ++ (if p.sawData then ['\n'] else []) ++
      ['\n'].intercalate ls)).length ≤ p.limits.maxEventBytes) :
    p.consume ((ls.map (field dataName)).map lineOf) = ([], p.making { p.current with
      data := p.current.data ++ (if p.sawData then ['\n'] else []) ++
        ['\n'].intercalate ls } true) := by
  induction ls generalizing p with
  | nil => exact absurd rfl hne
  | cons l ls ih =>
    cases ls with
    | nil =>
      have hone : ['\n'].intercalate [l] = l := by simp [intercalate]
      rw [hone] at hsize ⊢
      rw [map_cons, map_cons, lineOf_data, consume, takeLine_data hsize]
      rfl
    | cons l' ls =>
      have hjoin :
          ['\n'].intercalate (l :: l' :: ls) = l ++ ['\n'] ++ ['\n'].intercalate (l' :: ls) := by
        simp [intercalate]
      have hfront :
          (Utf8.encode (p.current.data ++ (if p.sawData then ['\n'] else []) ++ l)).length ≤
            p.limits.maxEventBytes := by
        rw [hjoin] at hsize
        simp only [Utf8.encode_append, length_append] at hsize ⊢
        omega
      have hrest := ih (p := p.making { p.current with
        data := p.current.data ++ (if p.sawData then ['\n'] else []) ++ l } true)
        (cons_ne_nil _ _) (by
          rw [hjoin] at hsize
          simpa [making] using hsize)
      rw [map_cons, map_cons, lineOf_data, consume, takeLine_data hfront, hrest, hjoin]
      simp [making]

/-- A parser that has read nothing of an event but a delay. -/
structure Ready (p : SseParser) (retry : Option UInt64) : Prop where
  current : p.current = { SseEvent.blank with retry := retry }
  sawData : p.sawData = false
  failed : p.failed = none

end SseParser

/-- The delay after a call. -/
def Call.retryAfter (retry : Option UInt64) : Call → Option UInt64
  | .data _ | .event _ _ | .done => none
  | .retry millis => some millis
  | .comment _ | .keepalive => retry

/-- The lines and the events of a call fit the parser. -/
structure Call.Within (limits : SseLimits) (call : Call) : Prop where
  line : ∀ line ∈ call.lines, (Utf8.encode line).length ≤ limits.maxBufferBytes
  name : ∀ line ∈ call.lines, (Utf8.encode (splitField line).1).length ≤ limits.maxFieldNameBytes
  event : ∀ e ∈ eventsOf none [call], (Utf8.encode e.data).length ≤ limits.maxEventBytes

theorem eventsOf_cons (retry : Option UInt64) (call : Call) (calls : List Call) :
    eventsOf retry (call :: calls) =
      eventsOf retry [call] ++ eventsOf (call.retryAfter retry) calls := by
  cases call <;> rfl

namespace SseParser

variable {p : SseParser} {retry : Option UInt64}

theorem payloadLines_ne_nil (data : List Char) : payloadLines data ≠ [] := splitOnP_ne_nil _ _

/-- The lines of an event, whose name was read. -/
theorem consume_event {event : Option (List Char)} (payload : List Char)
    (hcurrent : p.current = ⟨event, [], none, retry⟩) (hsaw : p.sawData = false)
    (hsize : (Utf8.encode (normalise payload)).length ≤ p.limits.maxEventBytes) :
    p.consume (((payloadLines payload).map (field dataName) ++ [[]]).map lineOf) =
      ([⟨event, normalise payload, none, retry⟩], p.making .blank false) := by
  have hpayload := consume_payload (p := p) (payloadLines_ne_nil payload) (by
    rw [hcurrent, hsaw, intercalate_payloadLines]
    exact hsize)
  rw [hcurrent, hsaw, intercalate_payloadLines] at hpayload
  rw [map_append, consume_append, hpayload]
  rfl

/-- **The lines of a call are consumed to its events.** -/
theorem consume_call (h : p.Ready retry) {call : Call} (hwithin : call.Within p.limits) :
    (p.consume (call.lines.map lineOf)).1 = eventsOf retry [call] ∧
      (p.consume (call.lines.map lineOf)).2.Ready (call.retryAfter retry) ∧
      (p.consume (call.lines.map lineOf)).2.limits = p.limits := by
  have hblank : p.current = ⟨none, [], none, retry⟩ := h.current
  cases call with
  | data payload =>
    have hsize := hwithin.event _ mem_cons_self
    rw [Call.lines, consume_event payload hblank h.sawData hsize]
    exact ⟨rfl, ⟨rfl, rfl, h.failed⟩, rfl⟩
  | event name payload =>
    have hsize := hwithin.event _ mem_cons_self
    have hname : p.takeLine (lineOf (field eventName (singleLine name))) =
        (none, p.making ⟨some (singleLine name), [], none, retry⟩ false) := by
      rw [lineOf_field (by decide) (by decide), takeLine, if_neg (by decide), if_pos rfl, hblank,
        making, ← h.sawData]
    rw [Call.lines, cons_append, map_cons, consume, hname]
    dsimp only
    rw [consume_event (p := p.making _ _) payload rfl rfl hsize]
    exact ⟨rfl, ⟨rfl, rfl, h.failed⟩, rfl⟩
  | comment text => exact ⟨rfl, h, rfl⟩
  | keepalive => exact ⟨rfl, h, rfl⟩
  | retry millis =>
    have hparse : Decimal.parse u64Max (Decimal.text 20 millis.toNat) = some millis.toNat := by
      have hlt := millis.toNat_lt
      refine Decimal.parse_text (by decide) ?_ ?_
      · omega
      · unfold u64Max
        omega
    have htake : p.takeLine (lineOf (field retryName (Decimal.text 20 millis.toNat))) =
        (none, p.making ⟨none, [], none, some millis⟩ false) := by
      rw [lineOf_field (by decide) (by decide), takeLine, if_neg (by decide), if_neg (by decide),
        if_neg (fun hid => absurd hid.1 (by decide)), if_pos rfl, hparse, hblank, making,
        ← h.sawData]
      simp
    rw [Call.lines, map_cons, consume, htake]
    exact ⟨rfl, ⟨rfl, rfl, h.failed⟩, rfl⟩
  | done =>
    have hsize := hwithin.event _ mem_cons_self
    have hmarker : payloadLines doneMarker = [doneMarker] := by decide
    have hlines : Call.done.lines = (payloadLines doneMarker).map (field dataName) ++ [[]] := by
      rw [hmarker]
      rfl
    rw [hlines, consume_event doneMarker hblank h.sawData hsize]
    exact ⟨rfl, ⟨rfl, rfl, h.failed⟩, rfl⟩

/-- The lines of calls are consumed to their events. -/
theorem consume_calls (h : p.Ready retry) {calls : List Call}
    (hwithin : ∀ call ∈ calls, call.Within p.limits) :
    (p.consume ((calls.flatMap Call.lines).map lineOf)).1 = eventsOf retry calls ∧
      (p.consume ((calls.flatMap Call.lines).map lineOf)).2.failed = none := by
  induction calls generalizing p retry with
  | nil => exact ⟨rfl, h.failed⟩
  | cons call calls ih =>
    obtain ⟨hevents, hready, hlimits⟩ := consume_call h (hwithin call mem_cons_self)
    have hrest := ih hready fun c hc => by
      rw [hlimits]
      exact hwithin c (mem_cons_of_mem call hc)
    rw [flatMap_cons, map_append, consume_append, eventsOf_cons, hevents, hrest.1]
    exact ⟨rfl, hrest.2⟩

end SseParser

/-! ### The round trip -/

theorem ascii_head_field {name : List Char} (hne : name ≠ []) (hascii : ∀ c ∈ name, c.toNat < 128)
    (value : List Char) : ∀ c, (field name value).head? = some c → c.toNat < 128 := by
  intro c hc
  obtain ⟨x, xs, rfl⟩ := exists_cons_of_ne_nil hne
  obtain rfl := Option.some.inj hc
  exact hascii _ mem_cons_self

/-- Every line that a call writes begins with a field name or a colon, never with a mark. -/
theorem ascii_head_of_mem_lines {call : Call} {line : List Char} (h : line ∈ call.lines) :
    ∀ c, line.head? = some c → c.toNat < 128 := by
  have hdata : ∀ value, ∀ c, (field dataName value).head? = some c → c.toNat < 128 :=
    ascii_head_field (by decide) (by simp [dataName])
  have hnil : ∀ c, ([] : List Char).head? = some c → c.toNat < 128 := by
    intro c hc
    cases hc
  have hpayload : ∀ payload, ∀ line ∈ (payloadLines payload).map (field dataName) ++ [[]],
      ∀ c, line.head? = some c → c.toNat < 128 := by
    intro payload line hline
    rcases mem_append.1 hline with hline | hline
    · obtain ⟨value, -, rfl⟩ := mem_map.1 hline
      exact hdata value
    · obtain rfl := mem_singleton.1 hline
      exact hnil
  cases call with
  | data payload => exact hpayload payload line h
  | event name payload =>
    rcases mem_cons.1 h with rfl | h
    · exact ascii_head_field (by decide) (by simp [eventName]) _
    · exact hpayload payload line h
  | comment text =>
    obtain rfl := mem_singleton.1 h
    intro c hc
    obtain rfl := Option.some.inj hc
    decide +kernel
  | keepalive =>
    obtain rfl := mem_singleton.1 h
    intro c hc
    obtain rfl := Option.some.inj hc
    decide +kernel
  | retry millis =>
    obtain rfl := mem_singleton.1 h
    exact ascii_head_field (by decide) (by simp [retryName]) _
  | done =>
    rcases mem_cons.1 h with rfl | h
    · exact hdata doneMarker
    · obtain rfl := mem_singleton.1 h
      exact hnil

theorem encode_calls_eq_lines (calls : List Call) :
    calls.flatMap Call.encode = (calls.flatMap Call.lines).flatMap terminated := by
  rw [flatMap_assoc]
  exact flatMap_congr fun call _ => encode_eq_lines call

/-- **Events survive the stream**: whatever the payloads, names and comments hold, the parser gives
one event for each data, event and done call, in their order, and a failure never. -/
theorem events_round_trip (limits : SseLimits) (calls : List Call)
    (hwithin : ∀ call ∈ calls, call.Within limits) :
    ((SseParser.new limits).push (Utf8.encode (calls.flatMap Call.encode))).failed = none ∧
      ((SseParser.new limits).push (Utf8.encode (calls.flatMap Call.encode))).drain.1 =
        .ok (eventsOf none calls) := by
  have hfits : ∀ line ∈ calls.flatMap Call.lines, LineFits (SseParser.new limits).limits line := by
    intro line hline
    obtain ⟨call, hcall, hmem⟩ := mem_flatMap.1 hline
    have hcallWithin := hwithin call hcall
    exact ⟨oneLine_of_mem_lines hmem, hcallWithin.line line hmem, hcallWithin.name line hmem,
      ascii_head_of_mem_lines hmem⟩
  obtain ⟨bom, hpush⟩ := SseParser.push_lines (p := SseParser.new limits) ⟨rfl, rfl, rfl⟩ hfits
  rw [encode_calls_eq_lines, hpush]
  refine ⟨rfl, ?_⟩
  obtain ⟨hevents, hfailed⟩ := SseParser.consume_calls
    (p := { SseParser.new limits with
      bomPending := bom, pending := (calls.flatMap Call.lines).map lineOf })
    ⟨rfl, rfl, rfl⟩ hwithin
  rw [← hevents]
  exact SseParser.drain_eq rfl hfailed

/-- A name and a comment that try to end their line, and a payload with empty lines. -/
theorem hostile_stream_round_trips :
    let calls : List Call := [.comment ['x', '\n', '\n', 'd', 'a', 't', 'a', ':', 'y'],
      .retry 2500, .event ['e', '\r', '\n'] ['a', '\r', '\n', '\n', ' ', ':', '\r'], .done]
    (∀ call ∈ calls, call.Within SseLimits.default) ∧
      ((SseParser.new .default).push (Utf8.encode (calls.flatMap Call.encode))).drain.1 =
        .ok [⟨some ['e', ' ', ' '], ['a', '\n', '\n', ' ', ':', '\n'], none, some 2500⟩,
          ⟨none, doneMarker, none, none⟩] := by
  intro calls
  have hwithin : ∀ call ∈ calls, call.Within SseLimits.default := by
    intro call hcall
    simp only [calls, mem_cons, not_mem_nil, or_false] at hcall
    rcases hcall with rfl | rfl | rfl | rfl <;>
      exact ⟨by decide +kernel, by decide +kernel, by decide +kernel⟩
  have hevents : eventsOf none calls =
      [⟨some ['e', ' ', ' '], ['a', '\n', '\n', ' ', ':', '\n'], none, some 2500⟩,
        ⟨none, doneMarker, none, none⟩] := by decide +kernel
  rw [← hevents]
  exact ⟨hwithin, (events_round_trip .default calls hwithin).2⟩

end HypeLlm.Sse
