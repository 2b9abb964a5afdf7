import HypeLlm.Http.Bytewise
import HypeLlm.Http.Request

/-!
# The requests of a connection

A connection keeps what was read and not yet taken.  It parses a head from it, then decodes the body
with a decoder of its own, then goes on with what is left.  When neither is possible it reads.  What a
handler answers, and when it closes, is not part of this.

* `step_tracks` — no step leaves the stream of requests;
* `parseRequestHead_part` — a part of a head is never refused;
* **`stream_recovered`** — however the bytes of accepted requests are split into reads, the requests
  are recovered in order and every byte is taken.
-/

namespace HypeLlm.Http

open HypeLlm.Results List

/-- A request as it is handed on. -/
structure Exchange where
  head : RequestHead
  payload : List UInt8
  trailers : Headers
  deriving Repr, DecidableEq

inductive Phase where
  | head
  | body (head : RequestHead) (decoder : BodyDecoder) (payload : List UInt8)
  deriving Repr, DecidableEq

structure Connection where
  /-- What was read and not yet taken. -/
  buffer : List UInt8
  phase : Phase
  served : List Exchange
  deriving Repr, DecidableEq

namespace Connection

def new : Connection := ⟨[], .head, []⟩

/-- One round without a read, and whether another can follow before the next read. -/
def step (limits : Limits) (c : Connection) : Except HttpErrorKind (Connection × Bool) :=
  match c.phase with
  | .head => do
    match ← parseRequestHead c.buffer limits with
    | .incomplete => .ok (c, false)
    | .complete head =>
      .ok ({ c with
        buffer := c.buffer.drop head.headLen
        phase := .body head (BodyDecoder.new head.body limits) [] }, true)
  | .body head decoder payload =>
    if decoder.isComplete then
      .ok ({ c with phase := .head, served := c.served ++ [⟨head, payload, decoder.trailers⟩] }, true)
    else if c.buffer = [] then .ok (c, false)
    else do
      let (decoder, consumed, payload) ← decoder.decode c.buffer payload
      .ok ({ c with buffer := c.buffer.drop consumed, phase := .body head decoder payload },
        decoder.isComplete)

/-- Rounds up to the next read, at most `fuel` of them. -/
def advance (limits : Limits) : ℕ → Connection → Except HttpErrorKind Connection
  | 0, c => .ok c
  | fuel + 1, c => do
    let (c, go) ← c.step limits
    if go then advance limits fuel c else .ok c

/-- A head takes four bytes at least, so there are fewer than three rounds for each byte. -/
def receive (limits : Limits) (c : Connection) (read : List UInt8) : Except HttpErrorKind Connection :=
  advance limits (3 * (c.buffer ++ read).length + 3) { c with buffer := c.buffer ++ read }

end Connection

/-! ### A part of a head -/

theorem findHeadEnd_bounds {buf : List UInt8} {n : ℕ} (h : findHeadEnd buf = some n) :
    4 ≤ n ∧ n ≤ buf.length ∧ buf.take n = buf.take (n - 4) ++ (crlf ++ crlf) := by
  induction buf generalizing n with
  | nil => cases h
  | cons b buf ih =>
    rw [findHeadEnd] at h
    split at h
    · rename_i hstart
      obtain rfl := Option.some.inj h
      obtain ⟨rest, hrest⟩ := isPrefixOf_iff_prefix.1 hstart
      rw [← hrest]
      refine ⟨le_refl _, ?_, rfl⟩
      rw [length_append]
      exact Nat.le_add_right 4 _
    · cases hfind : findHeadEnd buf with
      | none =>
        rw [hfind] at h
        cases h
      | some k =>
        rw [hfind] at h
        have hn : k + 1 = n := Option.some.inj h
        obtain ⟨hlow, hhigh, htake⟩ := ih hfind
        refine ⟨by omega, by rw [length_cons]; omega, ?_⟩
        rw [← hn, show k + 1 - 4 = (k - 4) + 1 by omega, take_succ_cons, take_succ_cons, htake, cons_append]

/-- The first empty line stays the first one. -/
theorem findHeadEnd_append {buf : List UInt8} {n : ℕ} (h : findHeadEnd buf = some n)
    (rest : List UInt8) : findHeadEnd (buf ++ rest) = some n := by
  induction buf generalizing n with
  | nil => cases h
  | cons b buf ih =>
    rw [findHeadEnd] at h
    rw [cons_append, findHeadEnd]
    split at h
    · rename_i hstart
      rw [if_pos, h]
      rw [ isPrefixOf_iff_prefix] at hstart ⊢
      exact hstart.trans ⟨rest, rfl⟩
    · rename_i hstart
      cases hfind : findHeadEnd buf with
      | none =>
        rw [hfind] at h
        cases h
      | some k =>
        rw [hfind] at h
        rw [ih hfind, ← h, if_neg]
        -- four bytes are there already, so more of them make no new empty line at the start
        intro hlong
        apply hstart
        have hbounds := findHeadEnd_bounds hfind
        rw [ isPrefixOf_iff_prefix] at hlong ⊢
        exact prefix_of_prefix_length_le hlong ⟨rest, rfl⟩ (by
          rw [length_cons, show (crlf ++ crlf).length = 4 from rfl]
          omega)

/-- No part of the bytes up to the first empty line has one. -/
theorem findHeadEnd_part {a b : List UInt8} (hb : b ≠ [])
    (h : findHeadEnd (a ++ b) = some (a ++ b).length) : findHeadEnd a = none := by
  cases hfind : findHeadEnd a with
  | none => rfl
  | some n =>
    have hsame := findHeadEnd_append hfind b
    rw [h] at hsame
    have hn : (a ++ b).length = n := Option.some.inj hsame
    have hbound := (findHeadEnd_bounds hfind).2.1
    rw [length_append] at hn
    exact absurd (List.length_eq_zero_iff.1 (by omega)) hb

/-- What is left to scan once the pairs before it are passed. -/
theorem scan_cons {b : UInt8} {rest : List UInt8} (hlf : b ≠ 0x0A) (hcr : b ≠ 0x0D) :
    scanForBareTerminators (b :: rest) = scanForBareTerminators rest := by
  cases rest with
  | nil =>
    show (if b = 0x0A then _ else none) = none
    rw [if_neg hlf]
  | cons c rest => rw [scanForBareTerminators, if_neg hlf, if_neg hcr]

theorem scan_part {a b : List UInt8} (h : scanForBareTerminators (a ++ b) = none) :
    scanForBareTerminators a = none := by
  induction a using scanForBareTerminators.induct with
  | case1 => rfl
  | case2 =>
    cases b with
    | nil => exact h
    | cons y b => cases h
  | case3 x hx => rw [scanForBareTerminators, if_neg hx]
  | case4 y rest => cases h
  | case5 rest _ ih => exact ih h
  | case6 y rest hy _ =>
    rw [cons_append, cons_append, scanForBareTerminators, if_neg (by decide), if_pos rfl,
      if_neg hy] at h
    cases h
  | case7 x y rest hlf hcr ih =>
    rw [cons_append, scan_cons hlf hcr] at h
    rw [scan_cons hlf hcr]
    exact ih h

/-- The lines of a head have only line ends in pairs, and so has the empty line after them. -/
theorem scan_of_splitCrlf {bad : HttpErrorKind} {line head : List UInt8} {lines : List (List UInt8)}
    (h : splitCrlf bad line head = .ok lines) :
    scanForBareTerminators (head ++ (crlf ++ crlf)) = none := by
  induction line, head using splitCrlf.induct generalizing lines with
  | case1 line => rfl
  | case2 line b hb =>
    rw [splitCrlf, if_pos hb] at h
    cases h
  | case3 line b hb =>
    rw [singleton_append, scan_cons (fun e => hb (.inr e)) (fun e => hb (.inl e))]
    rfl
  | case4 line b c rest hpair ih =>
    obtain ⟨rfl, rfl⟩ := hpair
    rw [splitCrlf, if_pos ⟨rfl, rfl⟩] at h
    cases hsplit : splitCrlf bad [] rest with
    | error e =>
      rw [hsplit] at h
      cases h
    | ok lines => exact ih hsplit
  | case5 line b c rest hpair hb =>
    rw [splitCrlf, if_neg hpair, if_pos hb] at h
    cases h
  | case6 line b c rest hpair hb ih =>
    rw [splitCrlf, if_neg hpair, if_neg hb] at h
    rw [cons_append, scan_cons (fun e => hb (.inr e)) (fun e => hb (.inl e))]
    exact ih h

/-! ### Accepted heads -/

/-- What is announced is not nothing, and within the bound. -/
theorem fixedFraming_fixed {limits : Limits} {value : List Char} {n : ℕ}
    (h : fixedFraming limits value = .ok (.fixed n)) : 0 < n ∧ n ≤ limits.maxBodyBytes := by
  rw [fixedFraming] at h
  obtain ⟨m, -, h⟩ := bind_eq_ok h
  obtain ⟨hmax, h⟩ := check_eq_ok h
  split at h
  · cases h
  · rename_i hm
    obtain rfl := BodyFraming.fixed.inj (Except.ok.inj h)
    exact ⟨Nat.pos_of_ne_zero hm, not_lt.1 hmax⟩

theorem requestBodyFraming_fixed {headers : Headers} {version : Version} {limits : Limits} {n : ℕ}
    (h : requestBodyFraming headers version limits = .ok (.fixed n)) : 0 < n ∧ n ≤ limits.maxBodyBytes := by
  unfold requestBodyFraming at h
  repeat' split at h
  all_goals first
    | exact fixedFraming_fixed h
    | cases h

/-- What an accepted head has passed. -/
theorem parseHead_ok {bytes : List UInt8} {headEnd : ℕ} {limits : Limits} {head : RequestHead}
    (h : parseHead bytes headEnd limits = .ok head) :
    head.headLen = headEnd ∧ (∀ n, head.body = .fixed n → 0 < n ∧ n ≤ limits.maxBodyBytes) ∧
      ∃ lines, splitCrlf .malformedRequestLine [] bytes = .ok lines := by
  rw [parseHead] at h
  obtain ⟨-, h⟩ := check_eq_ok h
  obtain ⟨lines, hlines, h⟩ := bind_eq_ok h
  obtain _ | ⟨requestLine, rest⟩ := lines
  · cases h
  · obtain ⟨r, -, h⟩ := bind_eq_ok h
    obtain ⟨-, h⟩ := check_eq_ok h
    obtain ⟨headers, -, h⟩ := bind_eq_ok h
    obtain ⟨body, hbody, h⟩ := bind_eq_ok h
    obtain ⟨-, -, h⟩ := bind_eq_ok h
    cases h
    refine ⟨rfl, ?_, _, hlines⟩
    rintro n rfl
    exact requestBodyFraming_fixed hbody

/-- What the bytes of an accepted head are. -/
theorem parseRequestHead_ok {bytes : List UInt8} {limits : Limits} {head : RequestHead}
    (h : parseRequestHead bytes limits = .ok (.complete head)) (hlen : head.headLen = bytes.length) :
    findHeadEnd bytes = some bytes.length ∧ bytes.length ≤ limits.clamped.maxHeadBytes ∧
      parseHead (bytes.take (bytes.length - 4)) bytes.length limits.clamped = .ok head := by
  rw [parseRequestHead] at h
  cases hfind : findHeadEnd bytes with
  | none =>
    simp only [hfind] at h
    obtain ⟨-, h⟩ := check_eq_ok h
    split at h <;> cases h
  | some n =>
    simp only [hfind] at h
    obtain ⟨hmax, h⟩ := check_eq_ok h
    obtain ⟨head', hparse, hsame⟩ := map_eq_ok h
    obtain rfl := ParseStatus.complete.inj hsame
    have hn : n = bytes.length := (parseHead_ok hparse).1.symm.trans hlen
    rw [← hn]
    exact ⟨rfl, not_lt.1 hmax, hparse⟩

/-- A head is parsed the same whatever follows it. -/
theorem parseRequestHead_append {bytes : List UInt8} {limits : Limits} {head : RequestHead}
    (h : parseRequestHead bytes limits = .ok (.complete head)) (hlen : head.headLen = bytes.length)
    (rest : List UInt8) : parseRequestHead (bytes ++ rest) limits = .ok (.complete head) := by
  obtain ⟨hfind, hmax, hparse⟩ := parseRequestHead_ok h hlen
  have htake : (bytes ++ rest).take (bytes.length - 4) = bytes.take (bytes.length - 4) := by
    rw [take_append_of_le_length (Nat.sub_le _ _)]
  rw [parseRequestHead]
  simp only [findHeadEnd_append hfind rest, if_neg (not_lt.2 hmax), htake, hparse]
  rfl

/-- **A part of a head waits for the rest.** -/
theorem parseRequestHead_part {a b : List UInt8} {limits : Limits} {head : RequestHead}
    (h : parseRequestHead (a ++ b) limits = .ok (.complete head))
    (hlen : head.headLen = (a ++ b).length) (hb : b ≠ []) :
    parseRequestHead a limits = .ok .incomplete := by
  obtain ⟨hfind, hmax, hparse⟩ := parseRequestHead_ok h hlen
  obtain ⟨-, -, lines, hlines⟩ := parseHead_ok hparse
  have hwhole : a ++ b = (a ++ b).take ((a ++ b).length - 4) ++ (crlf ++ crlf) := by
    rw [← (findHeadEnd_bounds hfind).2.2, take_length]
  have hscan : scanForBareTerminators (a ++ b) = none := by
    rw [hwhole]
    exact scan_of_splitCrlf hlines
  have hshort : a.length ≤ limits.clamped.maxHeadBytes := by
    rw [length_append] at hmax
    omega
  rw [parseRequestHead]
  simp only [findHeadEnd_part hb hfind, if_neg (not_lt.2 hshort), scan_part hscan]

theorem parseRequestHead_nil (limits : Limits) : parseRequestHead [] limits = .ok .incomplete := by
  rw [parseRequestHead]
  simp only [findHeadEnd, length_nil, if_neg (Nat.not_lt_zero _), scanForBareTerminators]

/-! ### Accepted requests -/

/-- A request as it is sent, and as it should be handed on. -/
structure Sent where
  head : List UInt8
  body : List UInt8
  exchange : Exchange

namespace Sent

def bytes (r : Sent) : List UInt8 := r.head ++ r.body

/-- The head is accepted, all of it, and a fresh decoder accepts the body, all of it. -/
structure Accepted (limits : Limits) (r : Sent) : Prop where
  head : parseRequestHead r.head limits = .ok (.complete r.exchange.head)
  headLen : r.exchange.head.headLen = r.head.length
  body : ∃ d, (BodyDecoder.new r.exchange.head.body limits).decode r.body [] =
      .ok (d, r.body.length, r.exchange.payload) ∧
    d.isComplete = true ∧ d.trailers = r.exchange.trailers

end Sent

/-- What is sent for requests, one after the other. -/
def wire (requests : List Sent) : List UInt8 := (requests.map Sent.bytes).flatten

theorem wire_cons (r : Sent) (requests : List Sent) :
    wire (r :: requests) = r.head ++ (r.body ++ wire requests) := by
  rw [wire, wire, map_cons, flatten_cons, Sent.bytes, append_assoc]

namespace BodyDecoder

/-- The rest of a body: feeding it completes the body with this payload and these trailers. -/
def Completes (d : BodyDecoder) (out rest payload : List UInt8) (trailers : Headers) : Prop :=
  ∃ d', d.run rest out = .ok (d', [], payload) ∧ d'.isComplete = true ∧ d'.trailers = trailers

theorem isComplete_iff {d : BodyDecoder} : d.isComplete = true ↔ d.state = .done := by
  rw [isComplete, beq_iff_eq]

/-- A body that is complete has no rest. -/
theorem Completes.done {d : BodyDecoder} {out rest payload : List UInt8} {trailers : Headers}
    (h : d.Completes out rest payload trailers) (hd : d.isComplete = true) :
    rest = [] ∧ out = payload ∧ d.trailers = trailers := by
  obtain ⟨d', hrun, -, htrailers⟩ := h
  rw [run_complete d (isComplete_iff.1 hd)] at hrun
  obtain ⟨rfl, hpair⟩ := Prod.mk.inj (Except.ok.inj hrun)
  exact ⟨(Prod.mk.inj hpair).1, (Prod.mk.inj hpair).2, htrailers⟩

/-- A body that is not complete has one. -/
theorem Completes.rest_ne {d : BodyDecoder} {out rest payload : List UInt8} {trailers : Headers}
    (h : d.Completes out rest payload trailers) (hd : d.isComplete = false) : rest ≠ [] := by
  rintro rfl
  obtain ⟨d', hrun, hcomplete, -⟩ := h
  obtain ⟨rfl, -⟩ := Prod.mk.inj (Except.ok.inj hrun)
  rw [hd] at hcomplete
  cases hcomplete

/-- **Decoding what was read of a body**: all of it, when the rest is to come, and no more than it,
when other bytes follow. -/
theorem Completes.decode {d : BodyDecoder} {out rest payload buffer tail after : List UInt8}
    {trailers : Headers} (hd : d.Proper) (h : d.Completes out rest payload trailers)
    (hsplit : buffer ++ tail = rest ++ after) :
    ∃ d' consumed out' rest', d.decode buffer out = .ok (d', consumed, out') ∧ d'.Proper ∧
      d'.Completes out' rest' payload trailers ∧ buffer.drop consumed ++ tail = rest' ++ after ∧
      (d'.isComplete = true ∨ buffer.drop consumed = []) := by
  rw [decode_eq_run d hd]
  obtain ⟨dEnd, hrun, hcomplete, htrailers⟩ := h
  obtain ⟨u, hbuffer, htail⟩ | ⟨u, hrest, hafter⟩ := append_eq_append_iff.1 hsplit
  · -- the rest of the body is `buffer` with `u` still to come
    rw [hbuffer, run_append] at hrun
    obtain ⟨⟨d', unread, out'⟩, hfirst, hsecond⟩ := bind_eq_ok hrun
    have hdrop : buffer.drop (buffer.length - unread.length) = unread :=
      (suffix_iff_eq_drop.1 (run_suffix hfirst)).symm
    rw [hfirst]
    refine ⟨d', buffer.length - unread.length, out', unread ++ u, rfl, run_proper hd hfirst,
      ⟨dEnd, hsecond, hcomplete, htrailers⟩, ?_, ?_⟩
    · rw [hdrop, htail, append_assoc]
    · rw [hdrop]
      exact run_unread hfirst
  · -- the whole rest was read, and `u` after it
    rw [hrest, run_append, hrun]
    show ∃ d' consumed out' rest', (dEnd.run u payload >>= _) = _ ∧ _
    rw [run_complete dEnd (isComplete_iff.1 hcomplete)]
    have hdrop : (rest ++ u).drop ((rest ++ u).length - u.length) = u := by
      rw [length_append, Nat.add_sub_cancel, drop_left]
    refine ⟨dEnd, (rest ++ u).length - u.length, payload, [], rfl, run_proper hd hrun,
      ⟨dEnd, rfl, hcomplete, htrailers⟩, ?_, .inl hcomplete⟩
    rw [hdrop, nil_append, hafter]

end BodyDecoder

/-- The body of an accepted request, from its start. -/
theorem Sent.Accepted.completes {limits : Limits} {r : Sent} (h : r.Accepted limits) :
    (BodyDecoder.new r.exchange.head.body limits).Proper ∧
      (BodyDecoder.new r.exchange.head.body limits).Completes [] r.body r.exchange.payload
        r.exchange.trailers := by
  obtain ⟨-, -, hparse⟩ := parseRequestHead_ok h.head h.headLen
  have hframing : r.exchange.head.body ≠ .fixed 0 :=
    fun h => absurd ((parseHead_ok hparse).2.1 0 h).1 (Nat.lt_irrefl 0)
  have hproper := BodyDecoder.new_proper hframing limits
  obtain ⟨d, hdecode, hcomplete, htrailers⟩ := h.body
  rw [BodyDecoder.decode_eq_run _ hproper] at hdecode
  obtain ⟨⟨d', unread, out⟩, hrun, hsame⟩ := bind_eq_ok hdecode
  obtain ⟨rfl, hpair⟩ := Prod.mk.inj (Except.ok.inj hsame)
  obtain ⟨hconsumed, rfl⟩ := Prod.mk.inj hpair
  have hsuffix := (BodyDecoder.run_suffix hrun).length_le
  obtain rfl : unread = [] := length_eq_zero_iff.1 (by simp only at hconsumed; omega)
  exact ⟨hproper, d', hrun, hcomplete, htrailers⟩

/-- **A body of announced length is accepted.**  Where the head announces so many bytes, they are the
payload as they are. -/
theorem Sent.accepted_fixed {limits : Limits} {r : Sent}
    (hhead : parseRequestHead r.head limits = .ok (.complete r.exchange.head))
    (hlen : r.exchange.head.headLen = r.head.length) (hbody : r.exchange.head.body = .fixed r.body.length)
    (hpayload : r.exchange.payload = r.body) (htrailers : r.exchange.trailers = .empty) :
    r.Accepted limits := by
  obtain ⟨-, -, hparse⟩ := parseRequestHead_ok hhead hlen
  obtain ⟨hpos, hmax⟩ := (parseHead_ok hparse).2.1 _ hbody
  have hroom : ¬limits.maxBodyBytes < Words.satAdd Words.u64Max 0 r.body.length :=
    not_lt.2 ((Nat.min_le_left _ _).trans (le_of_eq_of_le (Nat.zero_add _) hmax))
  have hdecode : (BodyDecoder.new (.fixed r.body.length) limits).decode r.body [] =
      .ok (⟨.done, limits, [], Words.satAdd Words.u64Max 0 r.body.length, 0, .empty⟩, r.body.length, r.body) := by
    have hloop : BodyDecoder.decodeLoop (r.body.length + 2) (.new (.fixed r.body.length) limits) r.body [] =
        .ok (⟨.done, limits, [], Words.satAdd Words.u64Max 0 r.body.length, 0, .empty⟩, [], r.body) := by
      simp only [BodyDecoder.decodeLoop, BodyDecoder.new, if_neg hpos.ne', if_neg (length_pos_iff.1 hpos),
        BodyDecoder.takeData, take_length, BodyDecoder.emit, if_neg hroom, Nat.sub_self, drop_length]
      rfl
    rw [BodyDecoder.decode, hloop]
    rfl
  rw [← hbody] at hdecode
  refine ⟨hhead, hlen, ⟨.done, limits, [], Words.satAdd Words.u64Max 0 r.body.length, 0, .empty⟩, ?_, rfl,
    htrailers.symm⟩
  rw [hpayload]
  exact hdecode

/-- **A request without a body is accepted.** -/
theorem Sent.accepted_none {limits : Limits} {r : Sent}
    (hhead : parseRequestHead r.head limits = .ok (.complete r.exchange.head))
    (hlen : r.exchange.head.headLen = r.head.length) (hframing : r.exchange.head.body = .none)
    (hbody : r.body = []) (hpayload : r.exchange.payload = []) (htrailers : r.exchange.trailers = .empty) :
    r.Accepted limits := by
  refine ⟨hhead, hlen, .new .none limits, ?_, rfl, htrailers.symm⟩
  rw [hframing, hbody, hpayload]
  rfl

/-! ### Staying with the stream -/

namespace Connection

/-- The connection has handed on the first requests, is within the next one, and has in its buffer
what was read of the others; `tail` is still to be read. -/
inductive Tracks (limits : Limits) (requests : List Sent) (c : Connection) (tail : List UInt8) : Prop
  | head (past todo : List Sent) (split : requests = past ++ todo) (phase : c.phase = .head)
      (served : c.served = past.map Sent.exchange) (stream : c.buffer ++ tail = wire todo)
  | body (past todo : List Sent) (r : Sent) (d : BodyDecoder) (out rest : List UInt8)
      (split : requests = past ++ r :: todo) (phase : c.phase = .body r.exchange.head d out)
      (served : c.served = past.map Sent.exchange) (proper : d.Proper)
      (completes : d.Completes out rest r.exchange.payload r.exchange.trailers)
      (stream : c.buffer ++ tail = rest ++ wire todo)

/-- Nothing can be done before a read. -/
inductive Waiting (limits : Limits) (c : Connection) : Prop
  | head (phase : c.phase = .head) (parse : parseRequestHead c.buffer limits = .ok .incomplete)
  | body (head : RequestHead) (d : BodyDecoder) (out : List UInt8) (phase : c.phase = .body head d out)
      (more : d.isComplete = false) (buffer : c.buffer = [])

/-- Rounds that may still come before a read: three for each byte, up to two for a body begun. -/
def rounds (c : Connection) : ℕ :=
  3 * c.buffer.length + match c.phase with
    | .head => 0
    | .body _ d _ => if d.isComplete then 1 else 2

variable {limits : Limits} {requests : List Sent} {c : Connection} {tail : List UInt8}

/-- What a step from a connection on the stream gives. -/
def Goes (limits : Limits) (requests : List Sent) (c : Connection) (tail : List UInt8) : Prop :=
  ∃ c' go, c.step limits = .ok (c', go) ∧ Tracks limits requests c' tail ∧
    if go then c'.rounds < c.rounds else Waiting limits c'

/-- A step within a head. -/
theorem goes_wait {past todo : List Sent} (hsplit : requests = past ++ todo) (hphase : c.phase = .head)
    (hserved : c.served = past.map Sent.exchange) (hstream : c.buffer ++ tail = wire todo)
    (hparse : parseRequestHead c.buffer limits = .ok .incomplete) : Goes limits requests c tail := by
  refine ⟨c, false, ?_, .head past todo hsplit hphase hserved hstream, .head hphase hparse⟩
  rw [step, hphase]
  simp only [hparse]
  rfl

/-- A step at the end of a head, `u` being read after it. -/
theorem goes_headEnd {past todo : List Sent} {r : Sent} (hr : r.Accepted limits)
    (hsplit : requests = past ++ r :: todo) (hphase : c.phase = .head)
    (hserved : c.served = past.map Sent.exchange) {u : List UInt8} (hbuffer : c.buffer = r.head ++ u)
    (hstream : u ++ tail = r.body ++ wire todo) : Goes limits requests c tail := by
  obtain ⟨hproper, hcompletes⟩ := hr.completes
  have hdrop : c.buffer.drop r.exchange.head.headLen = u := by
    rw [hbuffer, hr.headLen, drop_left]
  refine ⟨{ c with buffer := u, phase := .body r.exchange.head _ [] }, true, ?_,
    .body past todo r _ [] r.body hsplit rfl hserved hproper hcompletes hstream, ?_⟩
  · have hparse : parseRequestHead c.buffer limits = .ok (.complete r.exchange.head) := by
      rw [hbuffer]
      exact parseRequestHead_append hr.head hr.headLen u
    rw [step, hphase]
    simp only [hparse]
    show Except.ok ({ c with
      buffer := c.buffer.drop r.exchange.head.headLen
      phase := .body r.exchange.head (BodyDecoder.new r.exchange.head.body limits) [] }, true) = _
    rw [hdrop]
  · obtain ⟨hfind, -, -⟩ := parseRequestHead_ok hr.head hr.headLen
    have hfour := (findHeadEnd_bounds hfind).1
    have hlength : c.buffer.length = r.head.length + u.length := by rw [hbuffer, length_append]
    simp only [if_true, rounds, hphase]
    split <;> omega

theorem goes_head (haccepted : ∀ r ∈ requests, r.Accepted limits) {past todo : List Sent}
    (hsplit : requests = past ++ todo) (hphase : c.phase = .head)
    (hserved : c.served = past.map Sent.exchange) (hstream : c.buffer ++ tail = wire todo) :
    Goes limits requests c tail := by
  cases todo with
  | nil =>
    obtain ⟨hbuffer, -⟩ := append_eq_nil_iff.1 hstream
    refine goes_wait hsplit hphase hserved hstream ?_
    rw [hbuffer]
    exact parseRequestHead_nil limits
  | cons r todo =>
    have hr := haccepted r (by rw [hsplit]; exact mem_append_right past mem_cons_self)
    have hstream' := hstream
    rw [wire_cons] at hstream'
    obtain ⟨b, hhead, htail⟩ | ⟨u, hbuffer, hafter⟩ := append_eq_append_iff.1 hstream'
    · by_cases hb : b = []
      · rw [hb, append_nil] at hhead
        rw [hb, nil_append] at htail
        exact goes_headEnd hr hsplit hphase hserved (hhead.symm.trans (append_nil _).symm) htail
      · have hparse := hr.head
        have hlen := hr.headLen
        rw [hhead] at hparse hlen
        exact goes_wait hsplit hphase hserved hstream (parseRequestHead_part hparse hlen hb)
    · exact goes_headEnd hr hsplit hphase hserved hbuffer hafter.symm

theorem goes_body {past todo : List Sent} {r : Sent} {d : BodyDecoder} {out rest : List UInt8}
    (hsplit : requests = past ++ r :: todo) (hphase : c.phase = .body r.exchange.head d out)
    (hserved : c.served = past.map Sent.exchange) (hproper : d.Proper)
    (hcompletes : d.Completes out rest r.exchange.payload r.exchange.trailers)
    (hstream : c.buffer ++ tail = rest ++ wire todo) : Goes limits requests c tail := by
  cases hd : d.isComplete with
  | true =>
    obtain ⟨rfl, rfl, htrailers⟩ := hcompletes.done hd
    have hexchange : (⟨r.exchange.head, r.exchange.payload, d.trailers⟩ : Exchange) = r.exchange := by
      rw [htrailers]
    refine ⟨{ c with phase := .head, served := c.served ++ [r.exchange] }, true, ?_,
      .head (past ++ [r]) todo ?_ rfl ?_ hstream, ?_⟩
    · rw [step, hphase]
      simp only [hd, if_true, hexchange]
    · rw [hsplit, append_assoc, singleton_append]
    · rw [map_append, hserved]
      rfl
    · simp only [if_true, rounds, hphase, hd]
      omega
  | false =>
    by_cases hbuffer : c.buffer = []
    · refine ⟨c, false, ?_,
        .body past todo r d out rest hsplit hphase hserved hproper hcompletes hstream,
        .body r.exchange.head d out hphase hd hbuffer⟩
      rw [step, hphase]
      simp only [hd, Bool.false_eq_true, if_false, if_pos hbuffer]
    · obtain ⟨d', consumed, out', rest', hdecode, hproper', hcompletes', hstream', hleft⟩ :=
        hcompletes.decode hproper hstream
      refine ⟨{ c with buffer := c.buffer.drop consumed, phase := .body r.exchange.head d' out' },
        d'.isComplete, ?_,
        .body past todo r d' out' rest' hsplit rfl hserved hproper' hcompletes' hstream', ?_⟩
      · rw [step, hphase]
        simp only [hd, Bool.false_eq_true, if_false, if_neg hbuffer, hdecode]
        rfl
      · cases hd' : d'.isComplete with
        | true =>
          have hshort : (c.buffer.drop consumed).length ≤ c.buffer.length := by
            rw [length_drop]
            omega
          simp only [if_true, rounds, hphase, hd, hd', Bool.false_eq_true, if_false]
          omega
        | false =>
          have hempty : c.buffer.drop consumed = [] := by
            obtain hdone | hempty := hleft
            · rw [hd'] at hdone
              cases hdone
            · exact hempty
          simp only [Bool.false_eq_true, if_false]
          exact .body r.exchange.head d' out' rfl hd' hempty

/-- **No step leaves the stream.** -/
theorem step_tracks (haccepted : ∀ r ∈ requests, r.Accepted limits)
    (h : Tracks limits requests c tail) : Goes limits requests c tail := by
  cases h with
  | head past todo hsplit hphase hserved hstream =>
    exact goes_head haccepted hsplit hphase hserved hstream
  | body past todo r d out rest hsplit hphase hserved hproper hcompletes hstream =>
    exact goes_body hsplit hphase hserved hproper hcompletes hstream

theorem advance_tracks (haccepted : ∀ r ∈ requests, r.Accepted limits) (fuel : ℕ)
    (h : Tracks limits requests c tail) (hfuel : c.rounds < fuel) :
    ∃ c', advance limits fuel c = .ok c' ∧ Tracks limits requests c' tail ∧ Waiting limits c' := by
  induction fuel generalizing c with
  | zero => exact absurd hfuel (Nat.not_lt_zero _)
  | succ fuel ih =>
    obtain ⟨c', go, hstep, htracks, hgo⟩ := step_tracks haccepted h
    rw [advance, hstep]
    cases go with
    | false => exact ⟨c', rfl, htracks, hgo⟩
    | true => exact ih htracks (by rw [if_pos rfl] at hgo; omega)

/-- A read moves bytes from what is still to be read into the buffer. -/
theorem receive_tracks (haccepted : ∀ r ∈ requests, r.Accepted limits) {read : List UInt8}
    (h : Tracks limits requests c (read ++ tail)) :
    ∃ c', receive limits c read = .ok c' ∧ Tracks limits requests c' tail ∧ Waiting limits c' := by
  refine advance_tracks haccepted _ (c := { c with buffer := c.buffer ++ read }) ?_ ?_
  · cases h with
    | head past todo hsplit hphase hserved hstream =>
      exact .head past todo hsplit hphase hserved ((append_assoc _ _ _).trans hstream)
    | body past todo r d out rest hsplit hphase hserved hproper hcompletes hstream =>
      exact .body past todo r d out rest hsplit hphase hserved hproper hcompletes
        ((append_assoc _ _ _).trans hstream)
  · show 3 * (c.buffer ++ read).length + _ < _
    have hphase : ∀ p : Phase, (match p with
        | .head => 0
        | .body _ d _ => if d.isComplete then 1 else 2) < 3 := by
      intro p
      cases p with
      | head => decide
      | body head d out =>
        show (if d.isComplete then 1 else 2) < 3
        split <;> decide
    exact Nat.add_lt_add_left (hphase _) _

/-- With the whole stream read, every request is handed on. -/
theorem tracks_end (haccepted : ∀ r ∈ requests, r.Accepted limits)
    (h : Tracks limits requests c []) (hwait : Waiting limits c) :
    c = ⟨[], .head, requests.map Sent.exchange⟩ := by
  cases h with
  | head past todo hsplit hphase hserved hstream =>
    cases todo with
    | nil =>
      obtain ⟨buffer, phase, served⟩ := c
      rw [append_nil] at hstream hsplit
      rw [hsplit]
      exact Connection.mk.injEq .. ▸ ⟨hstream, hphase, hserved⟩
    | cons r todo =>
      -- the head of the next request is in the buffer, so it is not waited for
      have hr := haccepted r (by rw [hsplit]; exact mem_append_right past mem_cons_self)
      rw [append_nil, wire_cons] at hstream
      have hparse := parseRequestHead_append hr.head hr.headLen (r.body ++ wire todo)
      rw [← hstream] at hparse
      cases hwait with
      | head _ hincomplete =>
        rw [hparse] at hincomplete
        cases hincomplete
      | body head d out hbody =>
        rw [hphase] at hbody
        cases hbody
  | body past todo r d out rest hsplit hphase hserved hproper hcompletes hstream =>
    cases hwait with
    | head hhead _ =>
      rw [hphase] at hhead
      cases hhead
    | body head d' out' hbody hmore hbuffer =>
      rw [hphase] at hbody
      obtain ⟨-, rfl, rfl⟩ := Phase.body.inj hbody
      rw [hbuffer] at hstream
      exact absurd (append_eq_nil_iff.1 hstream.symm).1 (hcompletes.rest_ne hmore)

theorem reads_track (haccepted : ∀ r ∈ requests, r.Accepted limits) (reads : List (List UInt8))
    (h : Tracks limits requests c reads.flatten) (hwait : Waiting limits c) :
    ∃ c', reads.foldlM (receive limits) c = .ok c' ∧ Tracks limits requests c' [] ∧
      Waiting limits c' := by
  induction reads generalizing c with
  | nil => exact ⟨c, rfl, h, hwait⟩
  | cons read reads ih =>
    obtain ⟨c', hreceive, htracks, hwait'⟩ := receive_tracks haccepted h
    rw [foldlM_cons, hreceive]
    exact ih htracks hwait'

end Connection

/-- **Requests are recovered from any reads of their bytes.**  For requests that are accepted one by
one, sent one after the other, the connection hands on the same heads, payloads and trailers in the
same order, takes every byte and waits for a head, however the bytes are split into reads. -/
theorem stream_recovered (limits : Limits) (requests : List Sent)
    (haccepted : ∀ r ∈ requests, r.Accepted limits) (reads : List (List UInt8))
    (hreads : reads.flatten = (requests.map fun r => r.head ++ r.body).flatten) :
    reads.foldlM (Connection.receive limits) Connection.new =
      .ok ⟨[], .head, requests.map Sent.exchange⟩ := by
  have hnew : Connection.Tracks limits requests Connection.new reads.flatten :=
    .head [] requests rfl rfl rfl hreads
  obtain ⟨c, hrun, htracks, hwait⟩ :=
    Connection.reads_track haccepted reads hnew (.head rfl (parseRequestHead_nil limits))
  rw [hrun, Connection.tracks_end haccepted htracks hwait]

/-- A chunked body with an extension and a trailer. -/
def chunkedSent : Sent where
  head := Utf8.encode (['P', 'O', 'S', 'T', ' ', '/', 'v', ' '] ++ Version.asStr .http11 ++
    ['\r', '\n', 'H', 'o', 's', 't', ':', ' ', 'a', '\r', '\n'] ++ transferEncodingName ++ [':'] ++
    chunkedValue ++ ['\r', '\n', '\r', '\n'])
  body := Utf8.encode ['3', ';', 'x', '\r', '\n', 'a', 'b', 'c', '\r', '\n', '0', '\r', '\n', 'T', ':',
    ' ', 'v', '\r', '\n', '\r', '\n']
  exchange := {
    head := {
      method := .post
      target := ['/', 'v']
      path := ['/', 'v']
      query := none
      version := .http11
      headers := ⟨[(hostName, ['a']), (transferEncodingName, chunkedValue)]⟩
      body := .chunked
      expectContinue := false
      connectionClose := false
      headLen := 56 }
    payload := Utf8.encode ['a', 'b', 'c']
    trailers := ⟨[(['t'], ['v'])]⟩ }

/-- A request without a body. -/
def bareSent : Sent where
  head := Utf8.encode (['G', 'E', 'T', ' ', '/', '?', 'q', ' '] ++ Version.asStr .http11 ++
    ['\r', '\n', 'H', 'o', 's', 't', ':', 'a', '\r', '\n', '\r', '\n'])
  body := []
  exchange := {
    head := {
      method := .get
      target := ['/', '?', 'q']
      path := ['/']
      query := some ['q']
      version := .http11
      headers := ⟨[(hostName, ['a'])]⟩
      body := .none
      expectContinue := false
      connectionClose := false
      headLen := 28 }
    payload := []
    trailers := .empty }

theorem chunkedSent_accepted : chunkedSent.Accepted .default :=
  ⟨by decide +kernel, by decide +kernel, _, rfl, by decide +kernel, by decide +kernel⟩

theorem bareSent_accepted : bareSent.Accepted .default :=
  Sent.accepted_none (by decide +kernel) (by decide +kernel) rfl rfl rfl rfl

/-- Two requests, byte by byte. -/
theorem pipelined_bytes_recovered :
    ((wire [chunkedSent, bareSent]).map fun b => [b]).foldlM (Connection.receive .default)
        Connection.new =
      .ok ⟨[], .head, [chunkedSent.exchange, bareSent.exchange]⟩ := by
  refine stream_recovered .default [chunkedSent, bareSent] ?_ _ (by decide +kernel)
  intro r hr
  obtain rfl | hr := mem_cons.1 hr
  · exact chunkedSent_accepted
  · obtain rfl := mem_singleton.1 hr
    exact bareSent_accepted

end HypeLlm.Http
