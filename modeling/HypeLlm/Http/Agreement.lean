import HypeLlm.Http.Serialized

/-!
# Builders and parsers on the framing of a body

What a builder announces is what the parser finds, unless the caller gave framing headers of its own
that the builder leaves in place: a transfer coding next to a length, or a length where the builder
sets none.

* `requestRead_iff`, `responseRead_iff` — a message that was built is read back as it was meant exactly
  when its framing headers say so;
* **`builders_agree`** — when that is, for each way to finish a message.
-/

namespace HypeLlm.Http

open HypeLlm.Results HypeLlm.Words List

/-- The framing of exactly `n` bytes. -/
def BodyFraming.exactly (n : ℕ) : BodyFraming := if n = 0 then .none else .fixed n

/-- One digit at least, nineteen at most, all zero. -/
def Zeros (value : List Char) : Prop := value ≠ [] ∧ value.length ≤ 19 ∧ ∀ c ∈ value, c = '0'

/-! ### Lengths -/

theorem isOws_false {s : List Char} (h : ∀ c ∈ s, isOws c = false) : trimOws s = s := by
  have hdrop : s.dropWhile isOws = s := by
    rw [dropWhile_eq_self_iff]
    intro hpos
    rw [h s[0] (getElem_mem hpos)]
    decide
  rw [trimOws, hdrop, rdropWhile_eq_self_iff]
  intro hne
  rw [h _ (getLast_mem hne)]
  decide

theorem digitChar_ascii {d : ℕ} (h : d < 10) :
    Utf8.encodeChar (Decimal.digitChar d) = [UInt8.ofNat (0x30 + d)] := by
  have htoNat := Decimal.toNat_digitChar h
  rw [Utf8.encodeChar_ascii (by omega), htoNat]

theorem encode_digits {s : List Char} (h : ∀ c ∈ s, ∃ d < 10, c = Decimal.digitChar d) :
    (Utf8.encode s).length = s.length ∧ (Utf8.encode s).all isAsciiDigit = true := by
  induction s with
  | nil => exact ⟨rfl, rfl⟩
  | cons c s ih =>
    obtain ⟨hlen, hall⟩ := ih fun x hx => h x (mem_cons_of_mem c hx)
    obtain ⟨d, hd, rfl⟩ := h c mem_cons_self
    rw [Utf8.encode_cons, digitChar_ascii hd]
    refine ⟨by rw [length_append, hlen, length_singleton, length_cons, Nat.add_comm], ?_⟩
    rw [all_append, hall, Bool.and_true]
    simp only [all_cons, all_nil, Bool.and_true, (digit_byte hd).2]

theorem trimOws_text (fuel n : ℕ) : trimOws (Decimal.text fuel n) = Decimal.text fuel n := by
  refine isOws_false ?_
  intro c hc
  obtain ⟨d, hd, rfl⟩ := Decimal.digit_of_mem_text hc
  have htoNat := Decimal.toNat_digitChar hd
  have hne (x : Char) (hx : x.toNat < 48) : (Decimal.digitChar d == x) = false := by
    rw [beq_eq_false_iff_ne]
    rintro rfl
    omega
  rw [isOws, hne ' ' (by decide), hne '\t' (by decide)]
  rfl

/-- A length that was written announces itself, as long as it has nineteen digits at most. -/
theorem fixedFraming_text {limits : Limits} {n : ℕ} (hn : n ≤ limits.maxBodyBytes) :
    fixedFraming limits (Decimal.text 20 n) = .ok (.exactly n) ↔ n < 10 ^ 19 := by
  obtain ⟨hlen, hall⟩ :=
    encode_digits fun c (hc : c ∈ Decimal.text 20 n) => Decimal.digit_of_mem_text hc
  have hshort : (Decimal.text 20 n).length ≤ 19 ↔ n < 10 ^ 19 :=
    Decimal.length_text_le_iff (by decide) (by decide)
  have hne : Decimal.text 20 n ≠ [] := Decimal.text_ne_nil (by decide)
  by_cases hlt : n < 10 ^ 19
  · refine iff_of_true ?_ hlt
    have hparse : parseContentLength (Decimal.text 20 n) = .ok n := by
      have hbound : n ≤ u64Max := by
        rw [u64Max]
        omega
      have hdigits : Decimal.parse u64Max (Decimal.text 20 n) = some n :=
        Decimal.parse_text (by decide) (hlt.trans (by decide)) hbound
      rw [parseContentLength, hlen, hall,
        if_neg (not_or.2 ⟨hne, not_lt.2 (hshort.2 hlt)⟩), hdigits]
      rfl
    rw [fixedFraming, hparse]
    show (if limits.maxBodyBytes < n then _ else _) = _
    rw [if_neg (not_lt.2 hn), BodyFraming.exactly]
    split <;> rfl
  · refine iff_of_false ?_ hlt
    have hparse : parseContentLength (Decimal.text 20 n) = .error .invalidContentLength := by
      rw [parseContentLength, hlen, if_pos (.inr (not_le.1 (mt hshort.1 hlt)))]
    rw [fixedFraming, hparse]
    intro h
    cases h

theorem parse_zeros {s : List Char} (h : Zeros s) : parseContentLength s = .ok 0 := by
  obtain ⟨hne, hshort, hall⟩ := h
  have hzero : '0' = Decimal.digitChar 0 := rfl
  obtain ⟨hlen, hdigits⟩ := encode_digits fun c hc => ⟨0, by decide, (hall c hc).trans hzero⟩
  have hreplicate : s = (replicate s.length 0).map Decimal.digitChar := by
    rw [map_replicate]
    exact eq_replicate_iff.2 ⟨rfl, hall⟩
  have hplus : s.head? ≠ some '+' := by
    intro hhead
    have hsame := hall _ (mem_of_head? hhead)
    revert hsame
    decide
  have hvalue : Decimal.parseDigits s = some 0 := by
    have hzeros : ∀ d ∈ replicate s.length 0, d = 0 := fun d hd => eq_of_mem_replicate hd
    rw [hreplicate, Decimal.parseDigits,
      Decimal.mapM_digitOf fun d hd => by rw [hzeros d hd]; decide]
    exact congrArg some (Decimal.value_eq_zero_iff.2 hzeros)
  rw [parseContentLength, hlen, hdigits, if_neg (not_or.2 ⟨hne, not_lt.2 hshort⟩), Decimal.parse,
    if_neg hplus]
  simp only [if_neg hne, hvalue]
  rfl

theorem zeros_of_parse {s : List Char} (h : parseContentLength s = .ok 0) : Zeros s := by
  rw [parseContentLength] at h
  obtain ⟨hshape, h⟩ := check_eq_ok h
  obtain ⟨hdigits, h⟩ := check_eq_ok h
  obtain ⟨hne, hshort⟩ := not_or.1 hshape
  have hbytes := all_eq_true.1 (by simpa using hdigits : (Utf8.encode s).all isAsciiDigit = true)
  have hplus : s.head? ≠ some '+' := by
    intro hhead
    have hbyte := hbytes 0x2B (mem_flatMap.2 ⟨'+', mem_of_head? hhead, by decide⟩)
    revert hbyte
    decide
  have hparse : Decimal.parse u64Max s = some 0 := by
    split at h
    · rename_i n hn
      rw [hn, Except.ok.inj h]
    · cases h
  rw [Decimal.parse, if_neg hplus] at hparse
  simp only [if_neg hne] at hparse
  have hvalue : Decimal.parseDigits s = some 0 := (Option.filter_eq_some_iff.1 hparse).1
  rw [Decimal.parseDigits] at hvalue
  obtain ⟨ds, hds, hzero⟩ := Option.map_eq_some_iff.1 hvalue
  have hall : ∀ c ∈ s, c = '0' := by
    intro c hc
    obtain ⟨d, hd, rfl⟩ := Decimal.mem_of_mapM_digitOf hds hc
    rw [Decimal.value_eq_zero_iff.1 hzero d hd]
    rfl
  obtain ⟨hlen, -⟩ := encode_digits fun c hc => ⟨0, by decide, hall c hc⟩
  exact ⟨hne, by omega, hall⟩

/-- A length of the caller's announces nothing exactly when it is zero. -/
theorem fixedFraming_zeros {limits : Limits} {s : List Char} :
    fixedFraming limits s = .ok .none ↔ Zeros s := by
  constructor
  · intro h
    rw [fixedFraming] at h
    obtain ⟨n, hparse, h⟩ := bind_eq_ok h
    obtain ⟨-, h⟩ := check_eq_ok h
    split at h
    · rename_i hn
      rw [hn] at hparse
      exact zeros_of_parse hparse
    · cases h
  · intro h
    rw [fixedFraming, parse_zeros h]
    rfl

/-! ### Headers as they are sent -/

/-- The caller's headers without those that are replaced. -/
def kept (replaced : List (List Char)) (calls : List (List Char × List Char)) :
    List (List Char × List Char) :=
  (entriesOf calls).filter fun e => e.1 ∉ replaced

theorem get_trimmed (entries : List (List Char × List Char)) (name : List Char) :
    Headers.get ⟨trimmed entries⟩ name = (Headers.get ⟨entries⟩ name).map trimOws := by
  rw [Headers.get, Headers.get, trimmed, find?_map]
  show Option.map _ (Option.map _ (entries.find? fun e => e.1 == name)) = _
  cases entries.find? fun e => e.1 == name <;> rfl

theorem get_append (a b : List (List Char × List Char)) (name : List Char) :
    Headers.get ⟨a ++ b⟩ name = (Headers.get ⟨a⟩ name).or (Headers.get ⟨b⟩ name) := by
  rw [Headers.get, Headers.get, Headers.get, find?_append, Option.map_or]

/-- A name that is replaced is not found among the caller's headers, any other where the caller put
it. -/
theorem get_kept_eq (replaced : List (List Char)) (name : List Char)
    (calls : List (List Char × List Char)) :
    Headers.get ⟨kept replaced calls⟩ name =
      if name ∈ replaced then none else Headers.get ⟨entriesOf calls⟩ name := by
  split
  · rename_i h
    rw [Headers.get, Option.map_eq_none_iff, find?_eq_none]
    intro e he hname
    have hmem := (mem_filter.1 he).2
    rw [beq_iff_eq.1 hname] at hmem
    exact absurd h (of_decide_eq_true hmem)
  · rename_i h
    rw [Headers.get, Headers.get, kept, find?_filter]
    congr 2
    funext e
    by_cases he : e.1 = name
    · simp [he, h]
    · simp [he]

theorem get_kept {replaced : List (List Char)} {name : List Char} (h : name ∈ replaced)
    (calls added : List (List Char × List Char)) :
    Headers.get ⟨kept replaced calls ++ added⟩ name = Headers.get ⟨added⟩ name := by
  rw [get_append, get_kept_eq, if_pos h, Option.none_or]

theorem get_kept_of_not {replaced : List (List Char)} {name : List Char} (h : name ∉ replaced)
    (calls : List (List Char × List Char)) {added : List (List Char × List Char)}
    (hadded : Headers.get ⟨added⟩ name = none) :
    Headers.get ⟨kept replaced calls ++ added⟩ name = Headers.get ⟨entriesOf calls⟩ name := by
  rw [get_append, hadded, Option.or_none, get_kept_eq, if_neg h]

theorem remove_kept (replaced : List (List Char)) (name : List Char)
    (calls : List (List Char × List Char)) {added : List (List Char × List Char)}
    (hadded : ∀ e ∈ added, e.1 ≠ name) :
    (Headers.remove ⟨kept replaced calls ++ added⟩ name).entries =
      kept (replaced ++ [name]) calls ++ added := by
  have hkeep : added.filter (fun e => e.1 != name) = added :=
    filter_eq_self.2 fun e he => bne_iff_ne.2 (hadded e he)
  have hpred : (fun e : List Char × List Char => e.1 != name && decide (e.1 ∉ replaced)) =
      fun e => decide (e.1 ∉ replaced ++ [name]) := by
    funext e
    by_cases he : e.1 = name
    · simp [he]
    · simp [he]
  rw [Headers.remove, filter_append, hkeep, kept, kept, filter_filter, hpred]

theorem kept_nil (calls : List (List Char × List Char)) : kept [] calls = entriesOf calls := by
  rw [kept, filter_eq_self]
  intro e _
  simp

theorem remove_calls (name : List Char) (calls : List (List Char × List Char)) :
    (Headers.remove ⟨entriesOf calls⟩ name).entries = kept [name] calls := by
  have hadded : ∀ e ∈ ([] : List (List Char × List Char)), e.1 ≠ name :=
    fun e he => absurd he not_mem_nil
  have h := remove_kept [] name calls hadded
  rw [kept_nil, append_nil, append_nil] at h
  exact h

/-! ### Requests -/

/-- The headers of a request with a body: the host, and the length where it is announced. -/
def withBodyEntries (b : RequestBuilder) (calls : List (List Char × List Char)) (body : List UInt8) :
    List (List Char × List Char) :=
  if body ≠ [] ∨ RequestBuilder.announcesBody b.method then
    kept [hostName, contentLengthName] calls ++
      [(hostName, b.host), (contentLengthName, Decimal.text 20 body.length)]
  else kept [hostName] calls ++ [(hostName, b.host)]

/-- The headers of a request in chunks. -/
def chunkedEntries (b : RequestBuilder) (calls : List (List Char × List Char)) :
    List (List Char × List Char) :=
  kept [hostName, transferEncodingName, contentLengthName] calls ++
    [(hostName, b.host), (transferEncodingName, chunkedValue)]

/-- The bytes of a request are parsed to its method, its target and these headers, with this framing,
and what is left is the body. -/
def RequestRead (limits : Limits) (b : RequestBuilder) (entries : List (List Char × List Char))
    (framing : BodyFraming) (bytes body : List UInt8) : Prop :=
  ∃ head, parseRequestHead bytes limits = .ok (.complete head) ∧ head.method = b.method ∧
    head.target = b.target ∧ head.headers = ⟨trimmed entries⟩ ∧ head.body = framing ∧
    bytes.drop head.headLen = body

/-- A builder for requests after header calls. -/
def RequestBuilder.Called (token target host : List Char) (calls : List (List Char × List Char))
    (b : RequestBuilder) : Prop :=
  (RequestBuilder.new (.fromToken token) target host >>= fun b =>
    calls.foldlM (fun b c => b.header c.1 c.2) b) = .ok b

theorem asStr_fromToken (token : List Char) : (Method.fromToken token).asStr = token := by
  rw [Method.fromToken]
  split
  · rename_i m hfind
    have hsame := find?_some hfind
    exact beq_iff_eq.1 hsame
  · rfl

theorem RequestBuilder.Called.sound {token target host : List Char}
    {calls : List (List Char × List Char)} {b : RequestBuilder}
    (htoken : isToken (Utf8.encode token) = true) (h : Called token target host calls b) :
    b.Sound ∧ b.headers = ⟨entriesOf calls⟩ ∧ b.headers.Valid := by
  obtain ⟨b₀, hnew, hcalls⟩ := bind_eq_ok h
  rw [RequestBuilder.new] at hnew
  obtain ⟨htarget, hnew⟩ := check_eq_ok hnew
  obtain ⟨hbytes, hnew⟩ := check_eq_ok hnew
  obtain ⟨hhost, hnew⟩ := check_eq_ok hnew
  obtain rfl := Except.ok.inj hnew
  obtain ⟨rfl, hvalid⟩ := RequestBuilder.calls_ok (fun e he => absurd he not_mem_nil) hcalls
  obtain ⟨hslash, horigin⟩ := not_or.1 htarget
  obtain ⟨hne, hall⟩ := not_or.1 hhost
  refine ⟨⟨?_, ?_, not_not.1 hslash, Bool.eq_false_iff.2 horigin, by simpa using hbytes, hne,
    by simpa using hall⟩, rfl, hvalid⟩
  · show isToken (Utf8.encode (Method.fromToken token).asStr) = true
    rw [asStr_fromToken]
    exact htoken
  · show Method.fromToken (Method.fromToken token).asStr = Method.fromToken token
    rw [asStr_fromToken]

/-- **A request that was built is read back as meant exactly when its framing headers say so and its
host is one.** -/
theorem requestRead_iff {b : RequestBuilder} {entries : List (List Char × List Char)} (h : b.Sound)
    (hvalid : Headers.Valid ⟨entries⟩) (hdistinct : NoRepeat entries) {limits : Limits}
    (hlimits : limits.AllowRequest { b with headers := ⟨entries⟩ }) (framing : BodyFraming)
    (body : List UInt8) :
    RequestRead limits b entries framing ({ b with headers := ⟨entries⟩ }.serializeHead ++ body) body ↔
      requestBodyFraming ⟨trimmed entries⟩ .http11 limits.clamped = .ok framing ∧
        validateHost ⟨trimmed entries⟩ .http11 = .ok () := by
  have hsound : RequestBuilder.Sound { b with headers := ⟨entries⟩ } :=
    ⟨h.method, h.known, h.slash, h.origin, h.target, h.hostNe, h.host⟩
  rw [RequestRead, parseRequestHead_serialized hsound hvalid hdistinct hlimits body]
  constructor
  · rintro ⟨head, hparse, -, -, -, hbody, -⟩
    obtain ⟨found, hfound, hparse⟩ := bind_eq_ok hparse
    obtain ⟨u, hhost, hparse⟩ := bind_eq_ok hparse
    obtain rfl := ParseStatus.complete.inj (Except.ok.inj hparse)
    obtain rfl : found = framing := hbody
    exact ⟨hfound, hhost⟩
  · rintro ⟨hframing, hhost⟩
    refine ⟨builtHead { b with headers := ⟨entries⟩ } framing, ?_, rfl, rfl, rfl, rfl, drop_left⟩
    show (requestBodyFraming ⟨trimmed entries⟩ .http11 limits.clamped >>= _) = _
    rw [hframing]
    show (validateHost ⟨trimmed entries⟩ .http11 >>= _) = _
    rw [hhost]
    rfl

theorem valid_kept {replaced : List (List Char)} {calls added : List (List Char × List Char)}
    (hcalls : Headers.Valid ⟨entriesOf calls⟩) (hadded : Headers.Valid ⟨added⟩) :
    Headers.Valid ⟨kept replaced calls ++ added⟩ := by
  intro e he
  obtain he | he := mem_append.1 he
  · exact hcalls e (mem_filter.1 he).1
  · exact hadded e he

theorem noRepeat_kept {replaced : List (List Char)} {calls added : List (List Char × List Char)}
    (hcalls : NoRepeat (entriesOf calls)) (hadded : NoRepeat added)
    (hreplaced : ∀ e ∈ added, e.1 ∈ replaced) : NoRepeat (kept replaced calls ++ added) := by
  refine pairwise_append.2 ⟨Pairwise.sublist filter_sublist hcalls, hadded, ?_⟩
  intro a ha e he _ hsame
  have hmem := of_decide_eq_true (mem_filter.1 ha).2
  rw [hsame] at hmem
  exact hmem (hreplaced e he)

theorem host_isFieldValue {b : RequestBuilder} (h : b.Sound) :
    isFieldValue (Utf8.encode b.host) = true := by
  have hall := all_eq_true.1 h.host
  rw [isFieldValue, all_eq_true]
  intro x hx
  have hbyte := hall x hx
  simp only [isHostByte, Bool.or_eq_true, contains_eq_mem, decide_eq_true_eq] at hbyte
  obtain hbyte | hbyte := hbyte
  · refine isTokenByte_isFieldValueByte ?_
    rw [isTokenByte, hbyte, Bool.true_or]
  · fin_cases hbyte <;> decide

theorem trimOws_host {b : RequestBuilder} (h : b.Sound) : trimOws b.host = b.host := by
  have hall := all_eq_true.1 h.host
  refine isOws_false ?_
  intro c hc
  have hne (x : Char) (byte : UInt8) (hbyte : byte ∈ Utf8.encodeChar x)
      (hhost : isHostByte byte = false) : (c == x) = false := by
    rw [beq_eq_false_iff_ne]
    rintro rfl
    have hmem := hall byte (mem_flatMap.2 ⟨c, hc, hbyte⟩)
    rw [hhost] at hmem
    cases hmem
  rw [isOws, hne ' ' 0x20 (by decide) (by decide), hne '\t' 0x09 (by decide) (by decide)]
  rfl

theorem validateHost_iff {b : RequestBuilder} (h : b.Sound) {entries : List (List Char × List Char)}
    (hget : Headers.get ⟨entries⟩ hostName = some b.host) :
    validateHost ⟨trimmed entries⟩ .http11 = .ok () ↔ (Utf8.encode b.host).length ≤ 255 := by
  rw [validateHost, get_trimmed, hget]
  simp only [Option.map_some, trimOws_host h, h.host, Bool.not_true, Bool.false_eq_true, if_false]
  by_cases hlong : 255 < (Utf8.encode b.host).length
  · rw [if_pos (.inr hlong)]
    exact iff_of_false (fun he => by cases he) (not_le.2 hlong)
  · rw [if_neg (not_or.2 ⟨h.hostNe, hlong⟩)]
    exact iff_of_true rfl (not_lt.1 hlong)

theorem valid_host {b : RequestBuilder} (h : b.Sound) :
    isToken (Utf8.encode hostName) = true ∧ isFieldValue (Utf8.encode b.host) = true ∧
      toAsciiLowercase hostName = hostName :=
  ⟨by decide +kernel, host_isFieldValue h, by decide +kernel⟩

theorem text_isFieldValue (fuel n : ℕ) : isFieldValue (Utf8.encode (Decimal.text fuel n)) = true := by
  obtain ⟨-, hall⟩ :=
    encode_digits fun c (hc : c ∈ Decimal.text fuel n) => Decimal.digit_of_mem_text hc
  rw [all_eq_true] at hall
  rw [isFieldValue, all_eq_true]
  intro x hx
  refine isTokenByte_isFieldValueByte ?_
  rw [isTokenByte, isAsciiAlphanumeric, hall x hx]
  rfl

theorem valid_length (fuel n : ℕ) :
    isToken (Utf8.encode contentLengthName) = true ∧
      isFieldValue (Utf8.encode (Decimal.text fuel n)) = true ∧
      toAsciiLowercase contentLengthName = contentLengthName :=
  ⟨by decide +kernel, text_isFieldValue fuel n, by decide +kernel⟩

theorem valid_chunked :
    isToken (Utf8.encode transferEncodingName) = true ∧
      isFieldValue (Utf8.encode chunkedValue) = true ∧
      toAsciiLowercase transferEncodingName = transferEncodingName :=
  ⟨by decide +kernel, by decide +kernel, by decide +kernel⟩

theorem finishWithBody_eq {b : RequestBuilder} (h : b.Sound) {calls : List (List Char × List Char)}
    (hheaders : b.headers = ⟨entriesOf calls⟩) (body : List UInt8) :
    b.finishWithBody body =
      .ok ({ b with headers := ⟨withBodyEntries b calls body⟩ }.serializeHead ++ body) := by
  obtain ⟨hname, hvalue, hlower⟩ := valid_host h
  obtain ⟨hname', hvalue', hlower'⟩ := valid_length 20 body.length
  rw [RequestBuilder.finishWithBody, hheaders, set_ok hname hlower hvalue, remove_calls, withBodyEntries]
  by_cases hsends : body ≠ [] ∨ RequestBuilder.announcesBody b.method
  · have hadded : ∀ e ∈ [(hostName, b.host)], e.1 ≠ contentLengthName := by
      intro e he
      obtain rfl := mem_singleton.1 he
      show hostName ≠ contentLengthName
      decide
    have hkept := remove_kept [hostName] contentLengthName calls hadded
    simp only [if_pos hsends, bind, Except.bind, set_ok hname' hlower' hvalue', hkept, append_assoc]
    rfl
  · simp only [if_neg hsends, bind, Except.bind]
    rfl

theorem finishChunked_eq {b : RequestBuilder} (h : b.Sound) {calls : List (List Char × List Char)}
    (hheaders : b.headers = ⟨entriesOf calls⟩) :
    b.finishChunked = .ok { b with headers := ⟨chunkedEntries b calls⟩ }.serializeHead := by
  obtain ⟨hname, hvalue, hlower⟩ := valid_host h
  obtain ⟨hname', hvalue', hlower'⟩ := valid_chunked
  have hhost : ∀ e ∈ [(hostName, b.host)], e.1 ≠ transferEncodingName := by
    intro e he
    obtain rfl := mem_singleton.1 he
    show hostName ≠ transferEncodingName
    decide
  have hboth : ∀ e ∈ [(hostName, b.host), (transferEncodingName, chunkedValue)],
      e.1 ≠ contentLengthName := by
    intro e he
    obtain rfl | he := mem_cons.1 he
    · show hostName ≠ contentLengthName
      decide
    · obtain rfl := mem_singleton.1 he
      show transferEncodingName ≠ contentLengthName
      decide
  have hfirst := remove_kept [hostName] transferEncodingName calls hhost
  have hsecond := remove_kept [hostName, transferEncodingName] contentLengthName calls hboth
  have hremoved : Headers.remove ⟨kept [hostName, transferEncodingName] calls ++
      [(hostName, b.host), (transferEncodingName, chunkedValue)]⟩ contentLengthName =
      ⟨chunkedEntries b calls⟩ :=
    congrArg Headers.mk hsecond
  rw [RequestBuilder.finishChunked, hheaders, set_ok hname hlower hvalue, remove_calls]
  simp only [bind, Except.bind, set_ok hname' hlower' hvalue', hfirst, append_assoc, cons_append,
    nil_append, hremoved]
  rfl

theorem requestBodyFraming_exactly {headers : Headers} {limits : Limits} {n : ℕ} :
    requestBodyFraming headers .http11 limits = .ok (.exactly n) ↔
      headers.get transferEncodingName = none ∧
        match headers.get contentLengthName with
        | some cl => fixedFraming limits cl = .ok (.exactly n)
        | none => n = 0 := by
  have hchunked : BodyFraming.chunked ≠ .exactly n := by
    rw [BodyFraming.exactly]
    split <;> exact BodyFraming.noConfusion
  rw [requestBodyFraming]
  cases headers.get transferEncodingName with
  | none =>
    cases headers.get contentLengthName with
    | none =>
      by_cases hn : n = 0
      · rw [hn]
        exact iff_of_true rfl ⟨rfl, rfl⟩
      · refine iff_of_false ?_ fun h => hn h.2
        rw [BodyFraming.exactly, if_neg hn]
        intro h
        cases h
    | some cl => exact ⟨fun h => ⟨rfl, h⟩, fun h => h.2⟩
  | some te =>
    refine iff_of_false ?_ fun h => by cases h.1
    cases headers.get contentLengthName with
    | some cl =>
      intro h
      cases h
    | none =>
      intro h
      obtain ⟨-, h⟩ := check_eq_ok h
      obtain ⟨-, h⟩ := check_eq_ok h
      exact hchunked (Except.ok.inj h)

/-- When a request with a body is read back as meant. -/
def BodyAgrees (b : RequestBuilder) (body : List UInt8) : Prop :=
  b.headers.get transferEncodingName = none ∧
    (body ≠ [] ∨ RequestBuilder.announcesBody b.method = true ∨
      ∀ value, b.headers.get contentLengthName = some value → Zeros (trimOws value)) ∧
    (Utf8.encode b.host).length ≤ 255 ∧ body.length < 10 ^ 19

theorem withBody_agrees_iff {b : RequestBuilder} (h : b.Sound)
    {calls : List (List Char × List Char)} (hheaders : b.headers = ⟨entriesOf calls⟩)
    (hvalid : Headers.Valid ⟨entriesOf calls⟩) (hdistinct : NoRepeat (entriesOf calls))
    {limits : Limits} {body : List UInt8} (hbody : body.length ≤ limits.maxBodyBytes)
    (hlimits : limits.AllowRequest { b with headers := ⟨withBodyEntries b calls body⟩ }) :
    RequestRead limits b (withBodyEntries b calls body) (.exactly body.length)
        ({ b with headers := ⟨withBodyEntries b calls body⟩ }.serializeHead ++ body) body ↔
      BodyAgrees b body := by
  rw [BodyAgrees, hheaders]
  by_cases hsends : body ≠ [] ∨ RequestBuilder.announcesBody b.method = true
  · have hentries : withBodyEntries b calls body = kept [hostName, contentLengthName] calls ++
        [(hostName, b.host), (contentLengthName, Decimal.text 20 body.length)] := by
      rw [withBodyEntries, if_pos hsends]
    have hadded : Headers.Valid
        ⟨[(hostName, b.host), (contentLengthName, Decimal.text 20 body.length)]⟩ := by
      intro e he
      obtain rfl | he := mem_cons.1 he
      · exact valid_host h
      · obtain rfl := mem_singleton.1 he
        exact valid_length 20 body.length
    have hnorepeat : NoRepeat
        [(hostName, b.host), (contentLengthName, Decimal.text 20 body.length)] := by
      refine pairwise_pair.2 fun _ => ?_
      show hostName ≠ contentLengthName
      decide
    have hreplaced : ∀ e ∈ [(hostName, b.host), (contentLengthName, Decimal.text 20 body.length)],
        e.1 ∈ [hostName, contentLengthName] := by
      intro e he
      obtain rfl | he := mem_cons.1 he
      · exact mem_cons_self
      · obtain rfl := mem_singleton.1 he
        exact mem_cons_of_mem _ mem_cons_self
    have hte : Headers.get ⟨kept [hostName, contentLengthName] calls ++
        [(hostName, b.host), (contentLengthName, Decimal.text 20 body.length)]⟩ transferEncodingName =
        Headers.get ⟨entriesOf calls⟩ transferEncodingName :=
      get_kept_of_not (by decide) calls rfl
    have hcl : Headers.get ⟨kept [hostName, contentLengthName] calls ++
        [(hostName, b.host), (contentLengthName, Decimal.text 20 body.length)]⟩ contentLengthName =
        some (Decimal.text 20 body.length) :=
      get_kept (by decide) calls _
    have hhost : Headers.get ⟨kept [hostName, contentLengthName] calls ++
        [(hostName, b.host), (contentLengthName, Decimal.text 20 body.length)]⟩ hostName =
        some b.host :=
      get_kept (by decide) calls _
    rw [hentries] at hlimits ⊢
    rw [requestRead_iff h (valid_kept hvalid hadded) (noRepeat_kept hdistinct hnorepeat hreplaced)
      hlimits, requestBodyFraming_exactly, validateHost_iff h hhost, get_trimmed, get_trimmed, hte, hcl,
      Option.map_eq_none_iff]
    simp only [Option.map_some, trimOws_text]
    rw [fixedFraming_text (show body.length ≤ limits.clamped.maxBodyBytes from hbody)]
    tauto
  · obtain ⟨hempty, hmethod⟩ := not_or.1 hsends
    have hentries : withBodyEntries b calls body = kept [hostName] calls ++ [(hostName, b.host)] := by
      rw [withBodyEntries, if_neg hsends]
    have hadded : Headers.Valid ⟨[(hostName, b.host)]⟩ := by
      intro e he
      obtain rfl := mem_singleton.1 he
      exact valid_host h
    have hreplaced : ∀ e ∈ [(hostName, b.host)], e.1 ∈ [hostName] := by
      intro e he
      obtain rfl := mem_singleton.1 he
      exact mem_cons_self
    have hte : Headers.get ⟨kept [hostName] calls ++ [(hostName, b.host)]⟩ transferEncodingName =
        Headers.get ⟨entriesOf calls⟩ transferEncodingName :=
      get_kept_of_not (by decide) calls rfl
    have hcl : Headers.get ⟨kept [hostName] calls ++ [(hostName, b.host)]⟩ contentLengthName =
        Headers.get ⟨entriesOf calls⟩ contentLengthName :=
      get_kept_of_not (by decide) calls rfl
    have hhost : Headers.get ⟨kept [hostName] calls ++ [(hostName, b.host)]⟩ hostName = some b.host :=
      get_kept (by decide) calls _
    rw [hentries] at hlimits ⊢
    rw [requestRead_iff h (valid_kept hvalid hadded)
      (noRepeat_kept hdistinct (pairwise_singleton _ _) hreplaced)
      hlimits, requestBodyFraming_exactly, validateHost_iff h hhost, get_trimmed, get_trimmed, hte, hcl,
      Option.map_eq_none_iff]
    obtain rfl : body = [] := not_not.1 hempty
    cases hlength : Headers.get ⟨entriesOf calls⟩ contentLengthName with
    | none => simp [hmethod]
    | some value =>
      simp only [Option.map_some, length_nil]
      rw [show BodyFraming.exactly 0 = .none from rfl, fixedFraming_zeros]
      simp [hmethod]
      tauto

theorem chunked_agrees_iff {b : RequestBuilder} (h : b.Sound) {calls : List (List Char × List Char)}
    (hvalid : Headers.Valid ⟨entriesOf calls⟩) (hdistinct : NoRepeat (entriesOf calls))
    {limits : Limits} (hlimits : limits.AllowRequest { b with headers := ⟨chunkedEntries b calls⟩ }) :
    RequestRead limits b (chunkedEntries b calls) .chunked
        { b with headers := ⟨chunkedEntries b calls⟩ }.serializeHead [] ↔
      (Utf8.encode b.host).length ≤ 255 := by
  have hadded : Headers.Valid ⟨[(hostName, b.host), (transferEncodingName, chunkedValue)]⟩ := by
    intro e he
    obtain rfl | he := mem_cons.1 he
    · exact valid_host h
    · obtain rfl := mem_singleton.1 he
      exact valid_chunked
  have hnorepeat : NoRepeat [(hostName, b.host), (transferEncodingName, chunkedValue)] := by
    refine pairwise_pair.2 fun _ => ?_
    show hostName ≠ transferEncodingName
    decide
  have hreplaced : ∀ e ∈ [(hostName, b.host), (transferEncodingName, chunkedValue)],
      e.1 ∈ [hostName, transferEncodingName, contentLengthName] := by
    intro e he
    obtain rfl | he := mem_cons.1 he
    · exact mem_cons_self
    · obtain rfl := mem_singleton.1 he
      exact mem_cons_of_mem _ mem_cons_self
  have hte : Headers.get ⟨chunkedEntries b calls⟩ transferEncodingName = some chunkedValue :=
    get_kept (by decide) calls _
  have hcl : Headers.get ⟨chunkedEntries b calls⟩ contentLengthName = none :=
    get_kept (by decide) calls _
  have hhost : Headers.get ⟨chunkedEntries b calls⟩ hostName = some b.host :=
    get_kept (by decide) calls _
  have hread := requestRead_iff h (valid_kept hvalid hadded)
    (noRepeat_kept hdistinct hnorepeat hreplaced) hlimits .chunked []
  rw [append_nil] at hread
  have hframing : requestBodyFraming ⟨trimmed (chunkedEntries b calls)⟩ .http11 limits.clamped =
      .ok .chunked := by
    rw [requestBodyFraming, get_trimmed, get_trimmed, hte, hcl]
    rfl
  rw [chunkedEntries] at hframing hhost ⊢
  rw [hread, validateHost_iff h hhost]
  exact ⟨fun hr => hr.2, fun hr => ⟨hframing, hr⟩⟩

/-! ### Responses -/

/-- A builder for responses after header calls; the version and whether to close may be set any time. -/
def ResponseBuilder.Called (version : Version) (status : ℕ) (close : Bool)
    (calls : List (List Char × List Char)) (b : ResponseBuilder) : Prop :=
  calls.foldlM (fun (b : ResponseBuilder) c => b.header c.1 c.2) ⟨version, status, .empty, close⟩ =
    .ok b

theorem ResponseBuilder.Called.sound {version : Version} {status : ℕ} {close : Bool}
    {calls : List (List Char × List Char)} {b : ResponseBuilder}
    (h : Called version status close calls b) :
    b = ⟨version, status, ⟨entriesOf calls⟩, close⟩ ∧ Headers.Valid ⟨entriesOf calls⟩ := by
  obtain ⟨rfl, hvalid⟩ := ResponseBuilder.calls_ok (fun e he => absurd he not_mem_nil) h
  exact ⟨rfl, hvalid⟩

/-- The headers of a response: some of the caller's replaced, and the connection if it closes. -/
def responseEntries (close : Bool) (replaced : List (List Char))
    (calls added : List (List Char × List Char)) : List (List Char × List Char) :=
  if close then
    kept (replaced ++ [connectionName]) calls ++ (added ++ [(connectionName, closeToken)])
  else kept replaced calls ++ added

/-- The bytes of a response head are parsed to its version, its status and these headers, with this
framing, and nothing is left. -/
def ResponseRead (limits : Limits) (requestMethod : Method) (b : ResponseBuilder)
    (entries : List (List Char × List Char)) (framing : BodyFraming) (bytes : List UInt8) : Prop :=
  ∃ head, parseResponseHead bytes requestMethod limits = .ok (.complete head) ∧
    head.version = b.version ∧ head.status = b.status ∧ head.headers = ⟨trimmed entries⟩ ∧
    head.body = framing ∧ head.headLen = bytes.length

/-- What a builder puts in place of the caller's headers. -/
structure Replaces (replaced : List (List Char)) (added : List (List Char × List Char)) : Prop where
  valid : Headers.Valid ⟨added⟩
  distinct : NoRepeat added
  names : ∀ e ∈ added, e.1 ∈ replaced
  connection : connectionName ∉ replaced

theorem replaces_length (n : ℕ) :
    Replaces [contentLengthName] [(contentLengthName, Decimal.text 20 n)] where
  valid := by
    intro e he
    obtain rfl := mem_singleton.1 he
    exact valid_length 20 n
  distinct := pairwise_singleton _ _
  names := by
    intro e he
    obtain rfl := mem_singleton.1 he
    exact mem_cons_self
  connection := by decide

theorem replaces_chunked :
    Replaces [transferEncodingName, contentLengthName] [(transferEncodingName, chunkedValue)] where
  valid := by
    intro e he
    obtain rfl := mem_singleton.1 he
    exact valid_chunked
  distinct := pairwise_singleton _ _
  names := by
    intro e he
    obtain rfl := mem_singleton.1 he
    exact mem_cons_self
  connection := by decide

theorem replaces_nothing : Replaces [contentLengthName, transferEncodingName] [] where
  valid := fun e he => absurd he not_mem_nil
  distinct := Pairwise.nil
  names := fun e he => absurd he not_mem_nil
  connection := by decide

section Sent

variable {replaced : List (List Char)} {calls added : List (List Char × List Char)}

theorem Replaces.ne (h : Replaces replaced added) : ∀ e ∈ added, e.1 ≠ connectionName := by
  intro e he hsame
  exact h.connection (hsame ▸ h.names e he)

theorem sentHeaders_eq (h : Replaces replaced added) (version : Version) (status : ℕ) (close : Bool) :
    ResponseBuilder.sentHeaders ⟨version, status, ⟨kept replaced calls ++ added⟩, close⟩ =
      ⟨responseEntries close replaced calls added⟩ := by
  rw [ResponseBuilder.sentHeaders, responseEntries]
  cases close with
  | false => rfl
  | true =>
    show Headers.mk (_ ++ _) = Headers.mk _
    rw [remove_kept replaced connectionName calls h.ne, append_assoc]
    rfl

theorem responseEntries_valid (h : Replaces replaced added) (close : Bool)
    (hvalid : Headers.Valid ⟨entriesOf calls⟩) :
    Headers.Valid ⟨responseEntries close replaced calls added⟩ := by
  rw [responseEntries]
  split
  · refine valid_kept hvalid ?_
    intro e he
    obtain he | he := mem_append.1 he
    · exact h.valid e he
    · obtain rfl := mem_singleton.1 he
      exact ⟨by decide +kernel, by decide +kernel, by decide +kernel⟩
  · exact valid_kept hvalid h.valid

theorem responseEntries_noRepeat (h : Replaces replaced added) (close : Bool)
    (hdistinct : NoRepeat (entriesOf calls)) :
    NoRepeat (responseEntries close replaced calls added) := by
  rw [responseEntries]
  split
  · refine noRepeat_kept hdistinct (pairwise_append.2 ⟨h.distinct, pairwise_singleton _ _, ?_⟩) ?_
    · intro a ha e he _
      obtain rfl := mem_singleton.1 he
      exact h.ne a ha
    · intro e he
      obtain he | he := mem_append.1 he
      · exact mem_append_left _ (h.names e he)
      · obtain rfl := mem_singleton.1 he
        exact mem_append_right _ mem_cons_self
  · exact noRepeat_kept hdistinct h.distinct h.names

/-- What is said of the connection is not about framing. -/
theorem get_responseEntries {name : List Char} (hname : name ≠ connectionName) (close : Bool) :
    Headers.get ⟨responseEntries close replaced calls added⟩ name =
      Headers.get ⟨kept replaced calls ++ added⟩ name := by
  rw [responseEntries]
  split
  · have hconnection : Headers.get ⟨[(connectionName, closeToken)]⟩ name = none := by
      rw [Headers.get, find?_singleton, if_neg (by simpa using hname.symm), Option.map_none]
    have hmem : name ∈ replaced ++ [connectionName] ↔ name ∈ replaced := by
      rw [mem_append, mem_singleton, or_iff_left hname]
    rw [get_append, get_append, get_append, hconnection, Option.or_none, get_kept_eq, get_kept_eq]
    simp only [hmem]
  · rfl

/-- **A response that was built is read back as meant exactly when its framing headers say so.** -/
theorem responseRead_iff (h : Replaces replaced added) {version : Version} {status : ℕ} {close : Bool}
    (hlow : 100 ≤ status) (hhigh : status ≤ 599) (hvalid : Headers.Valid ⟨entriesOf calls⟩)
    (hdistinct : NoRepeat (entriesOf calls)) {limits : Limits}
    (hlimits : limits.AllowResponse ⟨version, status, ⟨kept replaced calls ++ added⟩, close⟩)
    (requestMethod : Method) (b : ResponseBuilder) (hversion : b.version = version)
    (hstatus : b.status = status) (framing : BodyFraming) :
    ResponseRead limits requestMethod b (responseEntries close replaced calls added) framing
        (responseBytes version status ⟨responseEntries close replaced calls added⟩) ↔
      responseBodyFraming ⟨trimmed (responseEntries close replaced calls added)⟩ status requestMethod
        limits.clamped = .ok framing := by
  have hsent : ResponseBuilder.sentHeaders ⟨version, status, ⟨kept replaced calls ++ added⟩, close⟩ =
      ⟨responseEntries close replaced calls added⟩ :=
    sentHeaders_eq h version status close
  have hparse := parseResponseHead_serialized hlow hhigh
    (by rw [hsent]; exact responseEntries_valid h close hvalid)
    (by rw [hsent]; exact responseEntries_noRepeat h close hdistinct) hlimits requestMethod
  simp only [hsent] at hparse
  rw [ResponseRead, hparse]
  constructor
  · rintro ⟨head, hhead, -, -, -, hbody, -⟩
    obtain ⟨found, hfound, hhead⟩ := bind_eq_ok hhead
    obtain rfl := ParseStatus.complete.inj (Except.ok.inj hhead)
    obtain rfl : found = framing := hbody
    exact hfound
  · intro hframing
    rw [hframing]
    refine ⟨_, rfl, hversion.symm, hstatus.symm, ?_, rfl, ?_⟩
    · rw [builtResponse, hsent]
    · rw [builtResponse, hsent]

end Sent

theorem responseBodyFraming_exactly {headers : Headers} {status : ℕ} {requestMethod : Method}
    {limits : Limits} {n : ℕ} {cl : List Char} (hbody : ResponseHead.statusForbidsBody status = false)
    (hmethod : requestMethod.responseHasBody = true)
    (hcl : headers.get contentLengthName = some cl) :
    responseBodyFraming headers status requestMethod limits = .ok (.exactly n) ↔
      headers.get transferEncodingName = none ∧ fixedFraming limits cl = .ok (.exactly n) := by
  rw [responseBodyFraming, hbody, hmethod, hcl]
  cases headers.get transferEncodingName with
  | none => exact ⟨fun h => ⟨rfl, h⟩, fun h => h.2⟩
  | some te =>
    refine iff_of_false ?_ fun h => by cases h.1
    intro h
    cases h

/-- The bytes of a finished response. -/
def finishedBytes (b : ResponseBuilder) (close : Bool) (replaced : List (List Char))
    (calls added : List (List Char × List Char)) : List UInt8 :=
  responseBytes b.version b.status ⟨responseEntries close replaced calls added⟩

section Finish

variable {b : ResponseBuilder} {calls : List (List Char × List Char)}

theorem serialize_kept {replaced : List (List Char)} {added : List (List Char × List Char)}
    (h : Replaces replaced added) (version : Version) (status : ℕ) (close : Bool) :
    ResponseBuilder.serialize ⟨version, status, ⟨kept replaced calls ++ added⟩, close⟩ =
      .ok (responseBytes version status ⟨responseEntries close replaced calls added⟩) := by
  rw [serialize_eq, sentHeaders_eq h]

theorem finishWithLength_eq (hheaders : b.headers = ⟨entriesOf calls⟩)
    (hbody : ResponseHead.statusForbidsBody b.status = false) (n : ℕ) :
    b.finishWithLength n = .ok (finishedBytes b b.close [contentLengthName] calls
      [(contentLengthName, Decimal.text 20 n)]) := by
  obtain ⟨hname, hvalue, hlower⟩ := valid_length 20 n
  rw [ResponseBuilder.finishWithLength, ResponseBuilder.announce, hbody, hheaders,
    set_ok hname hlower hvalue, remove_calls]
  exact serialize_kept (replaces_length n) b.version b.status b.close

theorem response_finishChunked_eq (hheaders : b.headers = ⟨entriesOf calls⟩) :
    b.finishChunked = .ok (finishedBytes b b.close [transferEncodingName, contentLengthName] calls
      [(transferEncodingName, chunkedValue)]) := by
  obtain ⟨hname, hvalue, hlower⟩ := valid_chunked
  have hadded : ∀ e ∈ [(transferEncodingName, chunkedValue)], e.1 ≠ contentLengthName := by
    intro e he
    obtain rfl := mem_singleton.1 he
    decide
  have hremoved : Headers.remove ⟨kept [transferEncodingName] calls ++
      [(transferEncodingName, chunkedValue)]⟩ contentLengthName = _ :=
    congrArg Headers.mk (remove_kept [transferEncodingName] contentLengthName calls hadded)
  rw [ResponseBuilder.finishChunked, hheaders, set_ok hname hlower hvalue, remove_calls]
  simp only [bind, Except.bind, hremoved]
  exact serialize_kept replaces_chunked b.version b.status b.close

theorem finishStreaming_eq (hheaders : b.headers = ⟨entriesOf calls⟩) :
    b.finishStreaming =
      .ok (finishedBytes b true [contentLengthName, transferEncodingName] calls []) := by
  have hremoved : (b.headers.remove contentLengthName).remove transferEncodingName =
      ⟨kept [contentLengthName, transferEncodingName] calls ++ []⟩ := by
    have hfirst : b.headers.remove contentLengthName = ⟨kept [contentLengthName] calls ++ []⟩ := by
      rw [hheaders, append_nil]
      exact congrArg Headers.mk (remove_calls contentLengthName calls)
    rw [hfirst]
    exact congrArg Headers.mk (remove_kept [contentLengthName] transferEncodingName calls
      fun e he => absurd he not_mem_nil)
  rw [ResponseBuilder.finishStreaming, hremoved]
  exact serialize_kept replaces_nothing b.version b.status true

variable {limits : Limits} {requestMethod : Method}

/-- A length is read back unless the caller gave a transfer coding. -/
theorem withLength_agrees_iff (hheaders : b.headers = ⟨entriesOf calls⟩)
    (hvalid : Headers.Valid ⟨entriesOf calls⟩) (hdistinct : NoRepeat (entriesOf calls))
    (hlow : 100 ≤ b.status) (hhigh : b.status ≤ 599)
    (hbody : ResponseHead.statusForbidsBody b.status = false)
    (hmethod : requestMethod.responseHasBody = true) {n : ℕ} (hn : n ≤ limits.maxBodyBytes)
    (hlimits : limits.AllowResponse { b with
      headers := ⟨kept [contentLengthName] calls ++ [(contentLengthName, Decimal.text 20 n)]⟩ }) :
    ResponseRead limits requestMethod b
        (responseEntries b.close [contentLengthName] calls [(contentLengthName, Decimal.text 20 n)])
        (.exactly n)
        (finishedBytes b b.close [contentLengthName] calls [(contentLengthName, Decimal.text 20 n)]) ↔
      b.headers.get transferEncodingName = none ∧ n < 10 ^ 19 := by
  have hcl : Headers.get ⟨responseEntries b.close [contentLengthName] calls
      [(contentLengthName, Decimal.text 20 n)]⟩ contentLengthName = some (Decimal.text 20 n) := by
    rw [get_responseEntries (by decide)]
    exact get_kept (by decide) calls _
  have hte : Headers.get ⟨responseEntries b.close [contentLengthName] calls
      [(contentLengthName, Decimal.text 20 n)]⟩ transferEncodingName =
      b.headers.get transferEncodingName := by
    rw [get_responseEntries (by decide), hheaders]
    exact get_kept_of_not (by decide) calls rfl
  have hcl' := get_trimmed (responseEntries b.close [contentLengthName] calls
    [(contentLengthName, Decimal.text 20 n)]) contentLengthName
  rw [hcl, Option.map_some, trimOws_text] at hcl'
  rw [finishedBytes, responseRead_iff (replaces_length n) hlow hhigh hvalid hdistinct hlimits
    requestMethod b rfl rfl, responseBodyFraming_exactly hbody hmethod hcl',
    fixedFraming_text (show n ≤ limits.clamped.maxBodyBytes from hn), get_trimmed, hte,
    Option.map_eq_none_iff]

theorem response_chunked_agrees (hvalid : Headers.Valid ⟨entriesOf calls⟩)
    (hdistinct : NoRepeat (entriesOf calls)) (hlow : 100 ≤ b.status) (hhigh : b.status ≤ 599)
    (hbody : ResponseHead.statusForbidsBody b.status = false)
    (hmethod : requestMethod.responseHasBody = true)
    (hlimits : limits.AllowResponse { b with
      headers := ⟨kept [transferEncodingName, contentLengthName] calls ++
        [(transferEncodingName, chunkedValue)]⟩ }) :
    ResponseRead limits requestMethod b
      (responseEntries b.close [transferEncodingName, contentLengthName] calls
        [(transferEncodingName, chunkedValue)]) .chunked
      (finishedBytes b b.close [transferEncodingName, contentLengthName] calls
        [(transferEncodingName, chunkedValue)]) := by
  rw [finishedBytes, responseRead_iff replaces_chunked hlow hhigh hvalid hdistinct hlimits requestMethod
    b rfl rfl, responseBodyFraming, hbody, hmethod, get_trimmed, get_trimmed,
    get_responseEntries (by decide), get_responseEntries (by decide), get_kept (by decide),
    get_kept (by decide)]
  rfl

theorem streaming_agrees (hvalid : Headers.Valid ⟨entriesOf calls⟩)
    (hdistinct : NoRepeat (entriesOf calls)) (hlow : 100 ≤ b.status) (hhigh : b.status ≤ 599)
    (hbody : ResponseHead.statusForbidsBody b.status = false)
    (hmethod : requestMethod.responseHasBody = true)
    (hlimits : limits.AllowResponse { b with
      headers := ⟨kept [contentLengthName, transferEncodingName] calls ++ []⟩
      close := true }) :
    ResponseRead limits requestMethod b
      (responseEntries true [contentLengthName, transferEncodingName] calls []) .untilClose
      (finishedBytes b true [contentLengthName, transferEncodingName] calls []) := by
  rw [finishedBytes, responseRead_iff replaces_nothing hlow hhigh hvalid hdistinct hlimits requestMethod
    b rfl rfl, responseBodyFraming, hbody, hmethod, get_trimmed, get_trimmed,
    get_responseEntries (by decide), get_responseEntries (by decide), get_kept (by decide),
    get_kept (by decide)]
  rfl

end Finish

/-- **Builders and parsers agree on framing exactly when the builder has the last word on it.**  A
request with a body agrees when the caller gave no transfer coding and no length that the builder
leaves in place, unless that is zero; a response with a length agrees when the caller gave no transfer
coding.  Messages in chunks and streams always agree.  A host has up to 255 bytes and a length up to
nineteen digits. -/
theorem builders_agree (limits : Limits) (calls : List (List Char × List Char))
    (hdistinct : NoRepeat (entriesOf calls)) :
    (∀ (token target host : List Char) (b : RequestBuilder), isToken (Utf8.encode token) = true →
      RequestBuilder.Called token target host calls b →
        (∀ body, ∃ bytes, b.finishWithBody body = .ok bytes ∧
          (body.length ≤ limits.maxBodyBytes →
            limits.AllowRequest { b with headers := ⟨withBodyEntries b calls body⟩ } →
            (RequestRead limits b (withBodyEntries b calls body) (.exactly body.length) bytes body ↔
              BodyAgrees b body))) ∧
        ∃ bytes, b.finishChunked = .ok bytes ∧
          (limits.AllowRequest { b with headers := ⟨chunkedEntries b calls⟩ } →
            (RequestRead limits b (chunkedEntries b calls) .chunked bytes [] ↔
              (Utf8.encode b.host).length ≤ 255))) ∧
    ∀ (version : Version) (status : ℕ) (close : Bool) (b : ResponseBuilder) (requestMethod : Method),
      ResponseBuilder.Called version status close calls b → 100 ≤ status → status ≤ 599 →
      ResponseHead.statusForbidsBody status = false → requestMethod.responseHasBody = true →
        (∀ n, ∃ bytes, b.finishWithLength n = .ok bytes ∧
          (n ≤ limits.maxBodyBytes →
            limits.AllowResponse { b with
              headers := ⟨kept [contentLengthName] calls ++ [(contentLengthName, Decimal.text 20 n)]⟩ } →
            (ResponseRead limits requestMethod b
                (responseEntries close [contentLengthName] calls
                  [(contentLengthName, Decimal.text 20 n)]) (.exactly n) bytes ↔
              b.headers.get transferEncodingName = none ∧ n < 10 ^ 19))) ∧
        (∃ bytes, b.finishChunked = .ok bytes ∧
          (limits.AllowResponse { b with
              headers := ⟨kept [transferEncodingName, contentLengthName] calls ++
                [(transferEncodingName, chunkedValue)]⟩ } →
            ResponseRead limits requestMethod b
              (responseEntries close [transferEncodingName, contentLengthName] calls
                [(transferEncodingName, chunkedValue)]) .chunked bytes)) ∧
        (∃ bytes, b.finishStreaming = .ok bytes ∧
          (limits.AllowResponse { b with
              headers := ⟨kept [contentLengthName, transferEncodingName] calls ++ []⟩
              close := true } →
            ResponseRead limits requestMethod b
              (responseEntries true [contentLengthName, transferEncodingName] calls []) .untilClose
              bytes)) ∧
        ∃ bytes, b.finishNoBody = .ok bytes ∧
          (limits.AllowResponse { b with
              headers := ⟨kept [contentLengthName] calls ++ [(contentLengthName, Decimal.text 20 0)]⟩ } →
            (ResponseRead limits requestMethod b
                (responseEntries close [contentLengthName] calls
                  [(contentLengthName, Decimal.text 20 0)]) .none bytes ↔
              b.headers.get transferEncodingName = none)) := by
  refine ⟨?_, ?_⟩
  · intro token target host b htoken hcalled
    obtain ⟨hsound, hheaders, hvalid⟩ := hcalled.sound htoken
    rw [hheaders] at hvalid
    refine ⟨fun body => ⟨_, finishWithBody_eq hsound hheaders body, fun hbody hlimits => ?_⟩,
      _, finishChunked_eq hsound hheaders, fun hlimits => ?_⟩
    · exact withBody_agrees_iff hsound hheaders hvalid hdistinct hbody hlimits
    · exact chunked_agrees_iff hsound hvalid hdistinct hlimits
  · intro version status close b requestMethod hcalled hlow hhigh hbody hmethod
    obtain ⟨rfl, hvalid⟩ := hcalled.sound
    refine ⟨fun n => ⟨_, finishWithLength_eq rfl hbody n, fun hn hlimits => ?_⟩,
      ⟨_, response_finishChunked_eq rfl, fun hlimits => ?_⟩,
      ⟨_, finishStreaming_eq rfl, fun hlimits => ?_⟩, _, finishWithLength_eq rfl hbody 0, fun hlimits => ?_⟩
    · exact withLength_agrees_iff rfl hvalid hdistinct hlow hhigh hbody hmethod hn hlimits
    · exact response_chunked_agrees hvalid hdistinct hlow hhigh hbody hmethod hlimits
    · exact streaming_agrees hvalid hdistinct hlow hhigh hbody hmethod hlimits
    · have hzero := withLength_agrees_iff rfl hvalid hdistinct hlow hhigh hbody hmethod (Nat.zero_le _)
        hlimits
      exact hzero.trans (and_iff_left (by decide))

/-- A request with one header of the caller's. -/
def posting (name value : List Char) : RequestBuilder :=
  ⟨.post, ['/'], ['a'], ⟨[(toAsciiLowercase name, value)]⟩⟩

theorem length_read_back :
    ∃ bytes, (posting ['X'] ['y', ' ']).finishWithBody [0x61] = .ok bytes ∧
      RequestRead .default (posting ['X'] ['y', ' '])
        (withBodyEntries (posting ['X'] ['y', ' ']) [(['X'], ['y', ' '])] [0x61]) (.fixed 1) bytes
        [0x61] := by
  obtain ⟨bytes, hfinish, hread⟩ :=
    ((builders_agree .default [(['X'], ['y', ' '])] (pairwise_singleton _ _)).1 ['P', 'O', 'S', 'T'] ['/']
      ['a'] (posting ['X'] ['y', ' ']) (by decide +kernel)
      (by unfold RequestBuilder.Called; decide +kernel)).1 [0x61]
  refine ⟨bytes, hfinish, (hread (by decide) ⟨by decide +kernel, by decide +kernel, by decide +kernel,
    by decide +kernel⟩).2 ⟨by decide +kernel, .inl (by decide), by decide +kernel, by decide⟩⟩

/-- A caller's transfer coding next to the builder's length: neither message is read back. -/
theorem own_coding_refused :
    (∃ bytes, RequestBuilder.Called ['P', 'O', 'S', 'T'] ['/'] ['a'] [(transferEncodingName, chunkedValue)]
        (posting transferEncodingName chunkedValue) ∧
      (posting transferEncodingName chunkedValue).finishWithBody [0x61] = .ok bytes ∧
      parseRequestHead bytes .default = .error .conflictingFraming) ∧
    ∃ bytes, ResponseBuilder.Called .http11 200 false [(transferEncodingName, chunkedValue)]
        ⟨.http11, 200, ⟨[(transferEncodingName, chunkedValue)]⟩, false⟩ ∧
      ResponseBuilder.finishWithLength ⟨.http11, 200, ⟨[(transferEncodingName, chunkedValue)]⟩, false⟩ 1 =
        .ok bytes ∧
      parseResponseHead bytes .get .default = .error .conflictingFraming := by
  unfold RequestBuilder.Called ResponseBuilder.Called
  exact ⟨⟨_, by decide +kernel, rfl, by decide +kernel⟩, _, by decide +kernel, rfl, by decide +kernel⟩

end HypeLlm.Http
