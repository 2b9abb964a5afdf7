import HypeLlm.Http.Lines
import HypeLlm.Http.Response

/-!
# Heads that were built

The bytes of a builder are parsed up to the decision on the body: the first line and the headers are
read back, and what is left is how the body is framed and, for a request, whether the host is one.

* `parseRequestHead_serialized` — for requests;
* `parseResponseHead_serialized` — for responses.
-/

namespace HypeLlm.Http

open HypeLlm.Results List

/-! ### Header calls -/

/-- The entries that accepted header calls leave. -/
def entriesOf (calls : List (List Char × List Char)) : List (List Char × List Char) :=
  calls.map fun c => (toAsciiLowercase c.1, c.2)

theorem appendUnchecked_ok {h h' : Headers} {name value : List Char}
    (happend : h.appendUnchecked name value = .ok h') :
    isToken (Utf8.encode name) = true ∧ isFieldValue (Utf8.encode value) = true ∧
      h' = ⟨h.entries ++ [(toAsciiLowercase name, value)]⟩ := by
  rw [Headers.appendUnchecked] at happend
  obtain ⟨hname, happend⟩ := check_eq_ok happend
  obtain ⟨hvalue, happend⟩ := check_eq_ok happend
  exact ⟨by simpa using hname, by simpa using hvalue, (Except.ok.inj happend).symm⟩

theorem valid_snoc {h : Headers} {name value : List Char} (hvalid : h.Valid)
    (hname : isToken (Utf8.encode name) = true) (hvalue : isFieldValue (Utf8.encode value) = true) :
    Headers.Valid ⟨h.entries ++ [(toAsciiLowercase name, value)]⟩ := by
  intro e he
  obtain he | he := mem_append.1 he
  · exact hvalid e he
  · obtain rfl := mem_singleton.1 he
    exact ⟨isToken_toAsciiLowercase hname, hvalue, toAsciiLowercase_idem name⟩

/-- Accepted calls on anything that holds headers. -/
theorem calls_ok {β : Type} (get : β → Headers) (put : β → Headers → β)
    (hget : ∀ b h, get (put b h) = h) (hput : ∀ b h h', put (put b h) h' = put b h')
    (hself : ∀ b, put b (get b) = b) {calls : List (List Char × List Char)} {b b' : β}
    (hvalid : (get b).Valid)
    (h : calls.foldlM (fun b c => (get b).appendUnchecked c.1 c.2 >>= fun h => .ok (put b h)) b =
      .ok b') :
    b' = put b ⟨(get b).entries ++ entriesOf calls⟩ ∧ (get b').Valid := by
  induction calls generalizing b with
  | nil =>
    obtain rfl := Except.ok.inj h
    simp only [entriesOf, map_nil, append_nil]
    exact ⟨(hself b).symm, hvalid⟩
  | cons c calls ih =>
    rw [foldlM_cons] at h
    obtain ⟨b₁, hheader, h⟩ := bind_eq_ok h
    obtain ⟨headers, happend, hheader⟩ := bind_eq_ok hheader
    obtain rfl := Except.ok.inj hheader
    obtain ⟨hname, hvalue, rfl⟩ := appendUnchecked_ok happend
    have hvalid₁ := valid_snoc hvalid hname hvalue
    obtain ⟨rfl, hvalid'⟩ := ih (by rw [hget]; exact hvalid₁) h
    refine ⟨?_, hvalid'⟩
    rw [hput, hget]
    simp only [entriesOf, map_cons, append_assoc, singleton_append]

theorem RequestBuilder.calls_ok {calls : List (List Char × List Char)} {b b' : RequestBuilder}
    (hvalid : b.headers.Valid) (h : calls.foldlM (fun b c => b.header c.1 c.2) b = .ok b') :
    b' = { b with headers := ⟨b.headers.entries ++ entriesOf calls⟩ } ∧ b'.headers.Valid :=
  Http.calls_ok RequestBuilder.headers (fun b h => { b with headers := h }) (fun _ _ => rfl)
    (fun _ _ _ => rfl) (fun _ => rfl) hvalid h

theorem ResponseBuilder.calls_ok {calls : List (List Char × List Char)} {b b' : ResponseBuilder}
    (hvalid : b.headers.Valid) (h : calls.foldlM (fun b c => b.header c.1 c.2) b = .ok b') :
    b' = { b with headers := ⟨b.headers.entries ++ entriesOf calls⟩ } ∧ b'.headers.Valid :=
  Http.calls_ok ResponseBuilder.headers (fun b h => { b with headers := h }) (fun _ _ => rfl)
    (fun _ _ _ => rfl) (fun _ => rfl) hvalid h

/-! ### Setting and removing -/

theorem set_ok {h : Headers} {name value : List Char} (hname : isToken (Utf8.encode name) = true)
    (hlower : toAsciiLowercase name = name) (hvalue : isFieldValue (Utf8.encode value) = true) :
    h.set name value = .ok ⟨(h.remove name).entries ++ [(name, value)]⟩ := by
  rw [Headers.set, hlower, Headers.appendUnchecked, hname, hvalue, hlower]
  rfl

/-! ### The first line of a request -/

theorem isTargetByte_plain {b : UInt8} (h : isTargetByte b = true) :
    b ≠ 0x20 ∧ b ≠ 0x0D ∧ b ≠ 0x0A ∧ b ≠ 0x00 := by
  refine ⟨?_, ?_, ?_, ?_⟩
  · rintro rfl
    revert h
    decide
  · rintro rfl
    revert h
    decide
  · rintro rfl
    revert h
    decide
  · rintro rfl
    revert h
    decide

/-- What a builder for requests has checked. -/
structure RequestBuilder.Sound (b : RequestBuilder) : Prop where
  method : isToken (Utf8.encode b.method.asStr) = true
  known : Method.fromToken b.method.asStr = b.method
  slash : b.target.head? = some '/'
  origin : ['/', '/'].isPrefixOf b.target = false
  target : (Utf8.encode b.target).all isTargetByte = true
  hostNe : b.host ≠ []
  host : (Utf8.encode b.host).all isHostByte = true

def requestLine (b : RequestBuilder) : List UInt8 :=
  Utf8.encode b.method.asStr ++ 0x20 :: (Utf8.encode b.target ++ 0x20 ::
    Utf8.encode (Version.asStr .http11))

theorem serializeHead_eq (b : RequestBuilder) :
    b.serializeHead = linesText (requestLine b) (b.headers.entries.map fieldLine) ++ (crlf ++ crlf) := by
  rw [← lines_ended, RequestBuilder.serializeHead, fieldLines_eq, requestLine]
  simp only [append_assoc, cons_append, nil_append]

theorem requestLine_plain {b : RequestBuilder} (h : b.Sound) :
    Plain (requestLine b) ∧ requestLine b ≠ [] := by
  have hmethod := h.method
  rw [isToken, Bool.and_eq_true, all_eq_true] at hmethod
  have htarget := all_eq_true.1 h.target
  refine ⟨Plain.append ?_ (Plain.append (a := [0x20]) ?_ (Plain.append ?_ ?_)), ?_⟩
  · exact fun x hx => isFieldValueByte_plain (isTokenByte_isFieldValueByte (hmethod.2 x hx))
  · intro x hx
    obtain rfl := mem_singleton.1 hx
    decide
  · exact fun x hx => (isTargetByte_plain (htarget x hx)).2
  · have hversion : (0x20 :: Utf8.encode (Version.asStr .http11)).all isFieldValueByte = true := by
      decide
    exact fun x hx => isFieldValueByte_plain (all_eq_true.1 hversion x hx)
  · exact append_ne_nil_of_right_ne_nil _ (cons_ne_nil _ _)

theorem parseTarget_sound {b : RequestBuilder} (h : b.Sound) {limits : Limits}
    (hlen : (Utf8.encode b.target).length ≤ limits.maxTargetBytes) (method : Method) :
    parseTarget (Utf8.encode b.target) method limits = .ok b.target := by
  have hne : Utf8.encode b.target ≠ [] := by
    intro hnil
    have hslash := h.slash
    rw [Utf8.encode_eq_nil hnil] at hslash
    cases hslash
  have hstar : b.target ≠ ['*'] := by
    intro hstar
    have hslash := h.slash
    rw [hstar] at hslash
    revert hslash
    decide
  rw [parseTarget, if_neg hne, if_neg (not_lt.2 hlen), h.target]
  simp only [Utf8.decode_encode, if_neg hstar, h.slash, h.origin, Bool.not_true, Bool.false_eq_true,
    if_false, ne_eq, not_true_eq_false]

theorem parseRequestLine_sound {b : RequestBuilder} (h : b.Sound) {limits : Limits}
    (hmethod : (Utf8.encode b.method.asStr).length ≤ limits.maxMethodBytes)
    (htarget : (Utf8.encode b.target).length ≤ limits.maxTargetBytes) :
    parseRequestLine (requestLine b) limits = .ok (b.method, b.target, .http11) := by
  have htoken := h.method
  rw [isToken, Bool.and_eq_true, all_eq_true] at htoken
  have hbytes := all_eq_true.1 h.target
  have hfirst : ∀ x ∈ Utf8.encode b.method.asStr, (x == 0x20) = false := by
    intro x hx
    refine beq_eq_false_iff_ne.2 ?_
    rintro rfl
    exact absurd (isTokenByte_bounds (htoken.2 _ hx)).1 (by decide)
  have hsecond : ∀ x ∈ Utf8.encode b.target, (x == 0x20) = false :=
    fun x hx => beq_eq_false_iff_ne.2 (isTargetByte_plain (hbytes x hx)).1
  have hthird : ∀ x ∈ Utf8.encode (Version.asStr .http11), (x == 0x20) = false := by
    decide +kernel
  have hsplit : (requestLine b).splitOnP (· == 0x20) =
      [Utf8.encode b.method.asStr, Utf8.encode b.target, Utf8.encode (Version.asStr .http11)] := by
    rw [requestLine, splitOnP_append_cons_of_forall_mem hfirst _ rfl,
      splitOnP_append_cons_of_forall_mem hsecond _ rfl, splitOnP_eq_singleton hthird]
  rw [parseRequestLine, hsplit]
  simp only [if_neg (not_lt.2 hmethod), h.method, Utf8.decode_encode, h.known,
    parseTarget_sound h htarget, Bool.not_true, Bool.false_eq_true, if_false]
  rfl

/-- The bytes of a request that are within the limits. -/
structure Limits.AllowRequest (limits : Limits) (b : RequestBuilder) : Prop where
  method : (Utf8.encode b.method.asStr).length ≤ limits.maxMethodBytes
  target : (Utf8.encode b.target).length ≤ limits.maxTargetBytes
  count : b.headers.entries.length ≤ limits.maxHeaderCount
  head : b.serializeHead.length ≤ limits.clamped.maxHeadBytes

/-- The head of a request that was built, once its framing is known. -/
def builtHead (b : RequestBuilder) (body : BodyFraming) : RequestHead :=
  let headers : Headers := ⟨trimmed b.headers.entries⟩
  { method := b.method
    target := b.target
    path := (splitTarget b.target).1
    query := (splitTarget b.target).2
    version := .http11
    headers := headers
    body := body
    expectContinue := headers.listContains expectName continueToken
    connectionClose := headers.listContains connectionName closeToken
    headLen := b.serializeHead.length }

theorem fieldLines_plain {h : Headers} (hvalid : h.Valid) :
    ∀ line ∈ h.entries.map fieldLine, Plain line ∧ line ≠ [] := by
  intro line hline
  obtain ⟨e, he, rfl⟩ := mem_map.1 hline
  obtain ⟨hname, hvalue, -⟩ := hvalid e he
  exact fieldLine_plain hname hvalue

/-- **A request that was built is parsed up to its framing and its host.** -/
theorem parseRequestHead_serialized {b : RequestBuilder} (h : b.Sound) (hvalid : b.headers.Valid)
    (hdistinct : NoRepeat b.headers.entries) {limits : Limits} (hlimits : limits.AllowRequest b)
    (body : List UInt8) :
    parseRequestHead (b.serializeHead ++ body) limits =
      (requestBodyFraming ⟨trimmed b.headers.entries⟩ .http11 limits.clamped >>= fun framing =>
        validateHost ⟨trimmed b.headers.entries⟩ .http11 >>= fun _ =>
          .ok (.complete (builtHead b framing))) := by
  have hfirst := requestLine_plain h
  have hrest := fieldLines_plain hvalid
  have hbytes := serializeHead_eq b
  have hlen : b.serializeHead.length =
      (linesText (requestLine b) (b.headers.entries.map fieldLine)).length + 4 := by
    rw [hbytes, length_append]
    rfl
  have htake : (b.serializeHead ++ body).take (b.serializeHead.length - 4) =
      linesText (requestLine b) (b.headers.entries.map fieldLine) := by
    rw [hlen, Nat.add_sub_cancel, hbytes, append_assoc, take_left]
  have hfind : findHeadEnd (b.serializeHead ++ body) = some b.serializeHead.length := by
    rw [hlen, hbytes]
    exact findHeadEnd_lines hfirst.1 hrest body
  have hline : parseRequestLine (requestLine b) limits.clamped = .ok (b.method, b.target, .http11) :=
    parseRequestLine_sound h hlimits.method hlimits.target
  have hcount : ¬limits.clamped.maxHeaderCount < (b.headers.entries.map fieldLine).length := by
    rw [length_map]
    exact not_lt.2 hlimits.count
  have hversion (x y : Bool) : (x || (Version.http11 == Version.http10 && y)) = x :=
    Bool.or_false x
  rw [parseRequestHead]
  simp only [hfind, if_neg (not_lt.2 hlimits.head), htake]
  rw [parseHead, linesText_not_contains hfirst.1 hrest, splitCrlf_lines _ hfirst hrest]
  simp only [hline, parseHeaderLines_fields hvalid hdistinct, if_neg hcount, Bool.false_eq_true,
    if_false, bind, Except.bind]
  cases requestBodyFraming ⟨trimmed b.headers.entries⟩ .http11 limits.clamped with
  | error e => rfl
  | ok framing =>
    cases validateHost ⟨trimmed b.headers.entries⟩ .http11 with
    | error e => rfl
    | ok u =>
      simp only [hversion]
      rfl

/-! ### The first line of a response -/

theorem reasonPhrase_isFieldValue (status : ℕ) :
    isFieldValue (Utf8.encode (reasonPhrase status).toList) = true := by
  unfold reasonPhrase
  split <;> decide +kernel

theorem encode_status {status : ℕ} (hlow : 100 ≤ status) (hhigh : status ≤ 599) :
    Utf8.encode (Decimal.text 5 status) =
      [UInt8.ofNat (0x30 + status / 100), UInt8.ofNat (0x30 + status / 10 % 10),
        UInt8.ofNat (0x30 + status % 10)] := by
  have hall : ∀ s ∈ range 600, 100 ≤ s → Utf8.encode (Decimal.text 5 s) =
      [UInt8.ofNat (0x30 + s / 100), UInt8.ofNat (0x30 + s / 10 % 10),
        UInt8.ofNat (0x30 + s % 10)] := by
    decide +kernel
  exact hall status (mem_range.2 (by omega)) hlow

theorem digit_byte {d : ℕ} (h : d < 10) :
    (UInt8.ofNat (0x30 + d)).toNat = 0x30 + d ∧ isAsciiDigit (UInt8.ofNat (0x30 + d)) = true := by
  have hbyte : (UInt8.ofNat (0x30 + d)).toNat = 0x30 + d := by
    rw [UInt8.toNat_ofNat', Nat.mod_eq_of_lt (by omega)]
  refine ⟨hbyte, ?_⟩
  rw [isAsciiDigit, hbyte, decide_eq_true_eq]
  omega

def statusLine (version : Version) (status : ℕ) : List UInt8 :=
  Utf8.encode version.asStr ++ 0x20 :: (Utf8.encode (Decimal.text 5 status) ++ 0x20 ::
    Utf8.encode (reasonPhrase status).toList)

theorem version_isToken (version : Version) :
    (Utf8.encode version.asStr).all (fun b => isFieldValueByte b && b != 0x20) = true := by
  cases version <;> decide +kernel

theorem statusLine_plain (version : Version) {status : ℕ} (hlow : 100 ≤ status) (hhigh : status ≤ 599) :
    Plain (statusLine version status) ∧ statusLine version status ≠ [] := by
  have hversion := all_eq_true.1 (version_isToken version)
  have hreason := reasonPhrase_isFieldValue status
  rw [isFieldValue, all_eq_true] at hreason
  have hspace : Plain [0x20] := by
    intro x hx
    obtain rfl := mem_singleton.1 hx
    decide
  have hdigit {d : ℕ} (hd : d < 10) : Plain [UInt8.ofNat (0x30 + d)] := by
    intro x hx
    obtain rfl := mem_singleton.1 hx
    refine isFieldValueByte_plain ?_
    have hbyte := (digit_byte hd).1
    simp only [isFieldValueByte, Bool.or_eq_true, decide_eq_true_eq, hbyte]
    exact .inl (.inr (by omega))
  refine ⟨Plain.append ?_ (hspace.append (Plain.append ?_ (hspace.append ?_))), ?_⟩
  · intro x hx
    have hbyte := hversion x hx
    rw [Bool.and_eq_true] at hbyte
    exact isFieldValueByte_plain hbyte.1
  · rw [encode_status hlow hhigh]
    exact (hdigit (by omega)).append ((hdigit (by omega)).append (hdigit (by omega)))
  · exact fun x hx => isFieldValueByte_plain (hreason x hx)
  · exact append_ne_nil_of_right_ne_nil _ (cons_ne_nil _ _)

theorem parseStatusLine_statusLine (version : Version) {status : ℕ} (hlow : 100 ≤ status)
    (hhigh : status ≤ 599) :
    parseStatusLine (statusLine version status) = .ok (version, status, (reasonPhrase status).toList) := by
  have hversion := all_eq_true.1 (version_isToken version)
  have hsep : (0x20 : UInt8) ∉ Utf8.encode version.asStr := by
    intro hmem
    have hbyte := hversion _ hmem
    revert hbyte
    decide
  have hparse : Version.parse (Utf8.encode version.asStr) = .ok version := by
    cases version <;> rfl
  obtain ⟨hhundreds, hdigit0⟩ := digit_byte (show status / 100 < 10 by omega)
  obtain ⟨htens, hdigit1⟩ := digit_byte (show status / 10 % 10 < 10 by omega)
  obtain ⟨hones, hdigit2⟩ := digit_byte (show status % 10 < 10 by omega)
  have hstatus : (0x30 + status / 100 - 0x30) * 100 + (0x30 + status / 10 % 10 - 0x30) * 10 +
      (0x30 + status % 10 - 0x30) = status := by
    omega
  rw [parseStatusLine, statusLine, splitField_append hsep, encode_status hlow hhigh]
  simp only [hparse, bind, Except.bind, cons_append, nil_append, hdigit0, hdigit1, hdigit2, hhundreds,
    htens, hones, hstatus, hlow, hhigh, and_self, not_true_eq_false, if_false, Bool.not_true,
    Bool.or_self, Bool.false_eq_true, parseReason, if_true, reasonPhrase_isFieldValue,
    Utf8.decodeLossy_encode]
  rfl

/-- The bytes of a response head. -/
def responseBytes (version : Version) (status : ℕ) (headers : Headers) : List UInt8 :=
  linesText (statusLine version status) (headers.entries.map fieldLine) ++ (crlf ++ crlf)

/-- The headers as they are sent: the last word on the connection is the builder's. -/
def ResponseBuilder.sentHeaders (b : ResponseBuilder) : Headers :=
  if b.close then ⟨(b.headers.remove connectionName).entries ++ [(connectionName, closeToken)]⟩
  else b.headers

theorem serialize_eq (b : ResponseBuilder) :
    b.serialize = .ok (responseBytes b.version b.status b.sentHeaders) := by
  have hbytes (headers : Headers) :
      Utf8.encode b.version.asStr ++ [0x20] ++ Utf8.encode (Decimal.text 5 b.status) ++ [0x20] ++
          Utf8.encode (reasonPhrase b.status).toList ++ crlf ++ fieldLines headers ++ crlf =
        responseBytes b.version b.status headers := by
    rw [responseBytes, ← lines_ended, fieldLines_eq, statusLine]
    simp only [append_assoc, cons_append, nil_append]
  rw [ResponseBuilder.serialize, ResponseBuilder.sentHeaders]
  split
  · rw [set_ok (by decide +kernel) (by decide +kernel) (by decide +kernel)]
    exact congrArg Except.ok (hbytes _)
  · exact congrArg Except.ok (hbytes _)

/-- The bytes of a response that are within the limits. -/
structure Limits.AllowResponse (limits : Limits) (b : ResponseBuilder) : Prop where
  count : b.sentHeaders.entries.length ≤ limits.maxHeaderCount
  head : (responseBytes b.version b.status b.sentHeaders).length ≤ limits.clamped.maxHeadBytes

/-- The head of a response that was built, once its framing is known. -/
def builtResponse (b : ResponseBuilder) (body : BodyFraming) : ResponseHead :=
  let headers : Headers := ⟨trimmed b.sentHeaders.entries⟩
  { version := b.version
    status := b.status
    reason := (reasonPhrase b.status).toList
    headers := headers
    body := body
    connectionClose := headers.listContains connectionName closeToken ||
      (b.version == .http10 && !headers.listContains connectionName keepAliveToken) ||
      body == .untilClose
    headLen := (responseBytes b.version b.status b.sentHeaders).length }

/-- **A response that was built is parsed up to its framing.** -/
theorem parseResponseHead_serialized {b : ResponseBuilder} (hlow : 100 ≤ b.status)
    (hhigh : b.status ≤ 599) (hvalid : b.sentHeaders.Valid)
    (hdistinct : NoRepeat b.sentHeaders.entries) {limits : Limits} (hlimits : limits.AllowResponse b)
    (requestMethod : Method) :
    parseResponseHead (responseBytes b.version b.status b.sentHeaders) requestMethod limits =
      (responseBodyFraming ⟨trimmed b.sentHeaders.entries⟩ b.status requestMethod limits.clamped >>=
        fun framing => .ok (.complete (builtResponse b framing))) := by
  have hfirst := statusLine_plain b.version hlow hhigh
  have hrest := fieldLines_plain hvalid
  have hlen : (responseBytes b.version b.status b.sentHeaders).length =
      (linesText (statusLine b.version b.status) (b.sentHeaders.entries.map fieldLine)).length + 4 := by
    rw [responseBytes, length_append]
    rfl
  have htake : (responseBytes b.version b.status b.sentHeaders).take
      ((responseBytes b.version b.status b.sentHeaders).length - 4) =
      linesText (statusLine b.version b.status) (b.sentHeaders.entries.map fieldLine) := by
    rw [hlen, Nat.add_sub_cancel, responseBytes, take_left]
  have hfind : findHeadEnd (responseBytes b.version b.status b.sentHeaders) =
      some (responseBytes b.version b.status b.sentHeaders).length := by
    have hlines := findHeadEnd_lines hfirst.1 hrest []
    rw [append_nil] at hlines
    rw [hlen, responseBytes]
    exact hlines
  have hcount : ¬limits.clamped.maxHeaderCount < (b.sentHeaders.entries.map fieldLine).length := by
    rw [length_map]
    exact not_lt.2 hlimits.count
  rw [parseResponseHead]
  simp only [hfind, if_neg (not_lt.2 hlimits.head), htake]
  rw [parseResponse, linesText_not_contains hfirst.1 hrest, splitCrlf_lines _ hfirst hrest]
  simp only [parseStatusLine_statusLine b.version hlow hhigh, parseHeaderLines_fields hvalid hdistinct,
    if_neg hcount, Bool.false_eq_true, if_false, bind, Except.bind]
  cases responseBodyFraming ⟨trimmed b.sentHeaders.entries⟩ b.status requestMethod limits.clamped <;> rfl

end HypeLlm.Http
