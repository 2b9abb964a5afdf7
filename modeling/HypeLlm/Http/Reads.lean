import HypeLlm.Http.Bytewise

/-!
# A body in reads

A body arrives in reads; what a call of `decode` did not take is offered again with the next read.
When a call fails, the payload that its earlier rounds appended stays where it is.  A whole chunk over
the bound is not appended at all, a chunk in pieces is appended up to the bound, so after a failure
two ways to split the bytes may leave different payloads.  One of them is then the start of the other,
because both are the start of what single bytes leave.

* `prefix_payloadLoop` — what a call leaves is the start of what single bytes leave;
* **`decodeReads_same`** — two ways to split the same bytes into reads end the same.
-/

namespace HypeLlm.Http.BodyDecoder

open HypeLlm.Results HypeLlm.Words List

/-- Two triples of one success. -/
theorem ok_triple {ε α β γ : Type*} {a a' : α} {b b' : β} {c c' : γ}
    (h : (Except.ok (a, b, c) : Except ε (α × β × γ)) = .ok (a', b', c')) :
    a = a' ∧ b = b' ∧ c = c' := by
  cases h
  exact ⟨rfl, rfl, rfl⟩

/-! ### Rounds -/

/-- A round of `decode` that reads a line, and whether another round follows. -/
def lineRound (d : BodyDecoder) (maxLen : ℕ)
    (after : BodyDecoder → List UInt8 → Except HttpErrorKind BodyDecoder) (unread out : List UInt8) :
    Except HttpErrorKind ((BodyDecoder × List UInt8 × List UInt8) × Bool) := do
  match ← d.takeLine maxLen unread with
  | (none, d, unread) => .ok ((d, unread, out), false)
  | (some line, d, unread) => .ok ((← after d line, unread, out), true)

/-- A round of `decode`, and whether another round follows. -/
def round (d : BodyDecoder) (unread out : List UInt8) :
    Except HttpErrorKind ((BodyDecoder × List UInt8 × List UInt8) × Bool) :=
  match d.state with
  | .done => .ok ((d, unread, out), false)
  | .fixed remaining =>
    if remaining = 0 then .ok (({ d with state := .done }, unread, out), true)
    else if unread = [] then .ok ((d, unread, out), false)
    else (d.takeData remaining .fixed .done unread out).map (·, true)
  | .untilClose =>
    if unread = [] then .ok ((d, unread, out), false)
    else (d.emit unread out).map fun r => ((r.1, [], r.2), false)
  | .chunkSize => d.lineRound d.limits.maxChunkLineBytes chunkSizeLine unread out
  | .chunkData remaining =>
    if unread = [] then .ok ((d, unread, out), false)
    else (d.takeData remaining .chunkData .chunkDataCrlf unread out).map (·, true)
  | .chunkDataCrlf => d.lineRound 2 chunkEndLine unread out
  | .trailer => d.lineRound d.limits.maxTrailerBytes trailerLine unread out

theorem lineRound_bind (d : BodyDecoder) (maxLen : ℕ)
    (after : BodyDecoder → List UInt8 → Except HttpErrorKind BodyDecoder) (unread out : List UInt8)
    (fuel : ℕ) :
    (d.takeLine maxLen unread >>= fun r =>
      match r with
      | (none, d, unread) => .ok (d, unread, out)
      | (some line, d, unread) => after d line >>= fun d => decodeLoop fuel d unread out) =
      d.lineRound maxLen after unread out >>= fun r =>
        if r.2 then decodeLoop fuel r.1.1 r.1.2.1 r.1.2.2 else .ok r.1 := by
  rw [lineRound]
  cases d.takeLine maxLen unread with
  | error e => rfl
  | ok p =>
    obtain ⟨line, d', rest⟩ := p
    cases line with
    | none => rfl
    | some line =>
      show (after d' line >>= fun d => decodeLoop fuel d rest out) =
        (after d' line >>= fun d => Except.ok ((d, rest, out), true)) >>= _
      cases after d' line <;> rfl

/-- `decode` is its rounds. -/
theorem decodeLoop_succ (fuel : ℕ) (d : BodyDecoder) (unread out : List UInt8) :
    decodeLoop (fuel + 1) d unread out = d.round unread out >>= fun r =>
      if r.2 then decodeLoop fuel r.1.1 r.1.2.1 r.1.2.2 else .ok r.1 := by
  rw [decodeLoop, round]
  cases d.state with
  | done => rfl
  | fixed remaining =>
    by_cases hzero : remaining = 0
    · simp only [if_pos hzero]
      rfl
    · by_cases hnil : unread = []
      · simp only [if_neg hzero, if_pos hnil]
        rfl
      · simp only [if_neg hzero, if_neg hnil]
        cases d.takeData remaining .fixed .done unread out <;> rfl
  | untilClose =>
    by_cases hnil : unread = []
    · simp only [if_pos hnil]
      rfl
    · simp only [if_neg hnil]
      cases d.emit unread out <;> rfl
  | chunkSize => exact lineRound_bind d _ chunkSizeLine unread out fuel
  | chunkData remaining =>
    by_cases hnil : unread = []
    · simp only [if_pos hnil]
      rfl
    · simp only [if_neg hnil]
      cases d.takeData remaining .chunkData .chunkDataCrlf unread out <;> rfl
  | chunkDataCrlf => exact lineRound_bind d _ chunkEndLine unread out fuel
  | trailer => exact lineRound_bind d _ trailerLine unread out fuel

/-- What `out` holds after at most `fuel` rounds, also when one fails.  A round appends once at most,
and nothing when it fails. -/
def payloadLoop : ℕ → BodyDecoder → List UInt8 → List UInt8 → List UInt8
  | 0, _, _, out => out
  | fuel + 1, d, unread, out =>
    match d.round unread out with
    | .error _ => out
    | .ok ((d, unread, out), go) => if go then payloadLoop fuel d unread out else out

/-- What `out` holds after a call of `decode`, also when the call fails. -/
def payload (d : BodyDecoder) (input out : List UInt8) : List UInt8 :=
  payloadLoop (input.length + 2) d input out

theorem payloadLoop_of_ok {fuel : ℕ} {d d' : BodyDecoder} {unread rest out out' : List UInt8}
    (h : decodeLoop fuel d unread out = .ok (d', rest, out')) : payloadLoop fuel d unread out = out' := by
  induction fuel generalizing d unread out with
  | zero =>
    exact (ok_triple h).2.2
  | succ fuel ih =>
    rw [decodeLoop_succ] at h
    obtain ⟨⟨⟨d₁, unread₁, out₁⟩, go⟩, hround, h⟩ := bind_eq_ok h
    rw [payloadLoop, hround]
    cases go with
    | false =>
      exact (ok_triple h).2.2
    | true => exact ih h

/-- A call that succeeds leaves the payload that it gives. -/
theorem payload_of_ok {d d' : BodyDecoder} {input out out' : List UInt8} {n : ℕ}
    (h : d.decode input out = .ok (d', n, out')) : d.payload input out = out' := by
  rw [decode] at h
  obtain ⟨⟨d₁, rest, out₁⟩, hloop, h⟩ := bind_eq_ok h
  obtain ⟨-, h⟩ := Prod.mk.inj (Except.ok.inj h)
  rw [payload, payloadLoop_of_ok hloop]
  exact (Prod.mk.inj h).2

/-! ### Single bytes -/

/-- What feeding leaves as payload, also when a byte is refused. -/
def written (d : BodyDecoder) : List UInt8 → List UInt8 → List UInt8
  | [], out => out
  | b :: unread, out =>
    if d.isComplete then out
    else
      match d.feed b out with
      | .error _ => out
      | .ok (d, out) => d.written unread out

theorem emit_prefix {d d' : BodyDecoder} {data out out' : List UInt8}
    (h : d.emit data out = .ok (d', out')) : out <+: out' := by
  rw [emit] at h
  obtain ⟨-, h⟩ := check_eq_ok h
  obtain ⟨-, rfl⟩ := Prod.mk.inj (Except.ok.inj h)
  exact prefix_append out data

theorem feedLine_out {d d' : BodyDecoder} {maxLen : ℕ}
    {after : BodyDecoder → List UInt8 → Except HttpErrorKind BodyDecoder} {b : UInt8}
    {out out' : List UInt8} (h : d.feedLine maxLen after b out = .ok (d', out')) : out' = out := by
  rw [feedLine] at h
  obtain ⟨⟨line, d₁⟩, -, h⟩ := bind_eq_ok h
  cases line with
  | none => exact (Prod.mk.inj (Except.ok.inj h)).2.symm
  | some line =>
    obtain ⟨d₂, -, h⟩ := bind_eq_ok h
    exact (Prod.mk.inj (Except.ok.inj h)).2.symm

theorem feedData_prefix {d d' : BodyDecoder} {remaining : ℕ} {more : ℕ → State} {last : State}
    {b : UInt8} {out out' : List UInt8} (h : d.feedData remaining more last b out = .ok (d', out')) :
    out <+: out' := by
  rw [feedData] at h
  obtain ⟨⟨d₁, out₁⟩, hemit, h⟩ := bind_eq_ok h
  obtain ⟨-, rfl⟩ := Prod.mk.inj (Except.ok.inj h)
  exact emit_prefix hemit

/-- A byte only adds to the payload. -/
theorem prefix_feed {d d' : BodyDecoder} {b : UInt8} {out out' : List UInt8}
    (h : d.feed b out = .ok (d', out')) : out <+: out' := by
  rw [feed] at h
  split at h
  · exact (Prod.mk.inj (Except.ok.inj h)).2 ▸ prefix_refl _
  · exact feedData_prefix h
  · exact emit_prefix h
  · exact (feedLine_out h).symm ▸ prefix_refl _
  · exact feedData_prefix h
  · exact (feedLine_out h).symm ▸ prefix_refl _
  · exact (feedLine_out h).symm ▸ prefix_refl _

theorem written_prefix (d : BodyDecoder) (unread out : List UInt8) : out <+: d.written unread out := by
  induction unread generalizing d out with
  | nil => exact prefix_refl out
  | cons b unread ih =>
    rw [written]
    split
    · exact prefix_refl out
    · cases hfeed : d.feed b out with
      | error e => exact prefix_refl out
      | ok r => exact (prefix_feed hfeed).trans (ih r.1 r.2)

/-- After bytes that are accepted, what is left is fed. -/
theorem written_append {d d' : BodyDecoder} {a rest out out' : List UInt8}
    (h : d.run a out = .ok (d', rest, out')) (b : List UInt8) :
    d.written (a ++ b) out = d'.written (rest ++ b) out' := by
  induction a generalizing d out with
  | nil =>
    obtain ⟨rfl, rfl, rfl⟩ := ok_triple h
    rfl
  | cons x a ih =>
    rw [run] at h
    split at h
    · rename_i hcomplete
      obtain ⟨rfl, rfl, rfl⟩ := ok_triple h
      rfl
    · rename_i hcomplete
      obtain ⟨r, hfeed, h⟩ := bind_eq_ok h
      rw [cons_append, written, if_neg hcomplete, hfeed]
      exact ih h

/-- More bytes leave more payload. -/
theorem written_mono (d : BodyDecoder) (a b out : List UInt8) :
    d.written a out <+: d.written (a ++ b) out := by
  induction a generalizing d out with
  | nil => exact written_prefix d b out
  | cons x a ih =>
    rw [cons_append, written, written]
    split
    · exact prefix_refl out
    · cases d.feed x out with
      | error e => exact prefix_refl out
      | ok r => exact ih r.1 r.2

/-! ### What a round takes -/

/-- A round has fed the bytes that it took. -/
def Fed (d : BodyDecoder) (unread out : List UInt8) (d' : BodyDecoder) (rest out' : List UInt8) : Prop :=
  ∃ used, unread = used ++ rest ∧ d.run used out = .ok (d', [], out')

theorem fed_nothing (d : BodyDecoder) (unread out : List UInt8) : d.Fed unread out d unread out :=
  ⟨[], rfl, rfl⟩

theorem takeData_fed {more : ℕ → State} {last : State} (hdata : DataState more last)
    {d d' : BodyDecoder} {r : ℕ} (hstate : d.state = more (r + 1)) {b : UInt8}
    {unread rest out out' : List UInt8}
    (h : d.takeData (r + 1) more last (b :: unread) out = .ok (d', rest, out')) :
    d.Fed (b :: unread) out d' rest out' := by
  rw [takeData] at h
  obtain ⟨⟨d₁, out₁⟩, hemit, h⟩ := bind_eq_ok h
  obtain ⟨hd, h⟩ := Prod.mk.inj (Except.ok.inj h)
  obtain ⟨hrest, rfl⟩ := Prod.mk.inj h
  have hlen : ((b :: unread).take (r + 1)).length ≤ r + 1 := length_take_le _ _
  have htake : (b :: unread).take (r + 1) = b :: unread.take r := take_succ_cons
  have hdrop : (b :: unread).drop ((b :: unread).take (r + 1)).length = (b :: unread).drop (r + 1) := by
    rw [length_take]
    rcases le_total (r + 1) (b :: unread).length with hle | hle
    · rw [Nat.min_eq_left hle]
    · rw [Nat.min_eq_right hle, drop_length, drop_of_length_le hle]
  refine ⟨(b :: unread).take (r + 1), ?_, ?_⟩
  · rw [← hrest, hdrop, take_append_drop]
  · -- the bytes that are taken, taken alone
    have hall : (b :: unread.take r).take (r + 1) = b :: unread.take r := by
      rw [take_of_length_le]
      rw [← htake]
      exact hlen
    rw [htake] at hemit hd ⊢
    rw [takeData_eq_run hdata r d hstate b (unread.take r) out, takeData, hall, hemit, ← hd]
    show run _ ((b :: unread.take r).drop (b :: unread.take r).length) out₁ = _
    rw [drop_length, run_nil]

/-- A line that is read is read from the bytes up to its end. -/
theorem takeLine_used {d d' : BodyDecoder} {maxLen : ℕ} {unread rest line : List UInt8}
    (h : d.takeLine maxLen unread = .ok (some line, d', rest)) :
    ∃ used, unread = used ++ rest ∧ d.takeLine maxLen used = .ok (some line, d', []) := by
  induction unread generalizing d with
  | nil => cases h
  | cons b unread ih =>
    rw [takeLine] at h
    split at h
    · cases h
    · rename_i hbyte
      obtain ⟨hline, h⟩ := Prod.mk.inj (Except.ok.inj h)
      obtain ⟨hd, rfl⟩ := Prod.mk.inj h
      refine ⟨[b], rfl, ?_⟩
      rw [takeLine, hbyte, ← hd, ← hline]
    · rename_i d₁ hbyte
      obtain ⟨used, hused, htake⟩ := ih h
      refine ⟨b :: used, by rw [hused, cons_append], ?_⟩
      rw [takeLine, hbyte]
      exact htake

theorem takeLine_none_rest {d d' : BodyDecoder} {maxLen : ℕ} {unread rest : List UInt8}
    (h : d.takeLine maxLen unread = .ok (none, d', rest)) : rest = [] := by
  induction unread generalizing d with
  | nil =>
    obtain ⟨-, h⟩ := Prod.mk.inj (Except.ok.inj h)
    exact (Prod.mk.inj h).2.symm
  | cons b unread ih =>
    rw [takeLine] at h
    split at h
    · cases h
    · cases (Prod.mk.inj (Except.ok.inj h)).1
    · exact ih h

theorem lineRound_fed {s : State} {maxLen : Limits → ℕ}
    {after : BodyDecoder → List UInt8 → Except HttpErrorKind BodyDecoder}
    (hline : LineState s maxLen after) {d d' : BodyDecoder} (hstate : d.state = s)
    {unread rest out out' : List UInt8} {go : Bool}
    (h : d.lineRound (maxLen d.limits) after unread out = .ok ((d', rest, out'), go)) :
    d.Fed unread out d' rest out' := by
  rw [lineRound] at h
  obtain ⟨⟨line, d₁, rest₁⟩, htake, h⟩ := bind_eq_ok h
  cases line with
  | none =>
    obtain rfl := takeLine_none_rest htake
    cases h
    refine ⟨unread, (append_nil unread).symm, ?_⟩
    rw [takeLine_eq_run hline unread d hstate out, htake]
    rfl
  | some line =>
    obtain ⟨d₂, hafter, h⟩ := bind_eq_ok h
    cases h
    obtain ⟨used, hused, htake⟩ := takeLine_used htake
    refine ⟨used, hused, ?_⟩
    rw [takeLine_eq_run hline used d hstate out, htake]
    show (after d₁ line >>= fun d => d.run [] out) = _
    rw [hafter]
    rfl

/-- **What a round does is feeding the bytes that it takes.** -/
theorem round_fed {d d' : BodyDecoder} (hd : d.Proper) {unread rest out out' : List UInt8} {go : Bool}
    (h : d.round unread out = .ok ((d', rest, out'), go)) : d.Fed unread out d' rest out' := by
  rw [round] at h
  cases hstate : d.state with
  | done =>
    simp only [hstate] at h
    cases h
    exact fed_nothing d unread out
  | fixed remaining =>
    simp only [hstate] at h
    obtain _ | r := remaining
    · exact absurd hstate hd.1
    · cases unread with
      | nil =>
        cases h
        exact fed_nothing d [] out
      | cons b unread =>
        obtain ⟨p, htake, h⟩ := map_eq_ok h
        obtain ⟨rfl, -⟩ := Prod.mk.inj h
        exact takeData_fed dataState_fixed hstate htake
  | untilClose =>
    simp only [hstate] at h
    cases unread with
    | nil =>
      cases h
      exact fed_nothing d [] out
    | cons b unread =>
      obtain ⟨p, hemit, h⟩ := map_eq_ok h
      cases h
      refine ⟨b :: unread, (append_nil _).symm, ?_⟩
      rw [run_untilClose d hstate b unread out, hemit]
      rfl
  | chunkSize =>
    simp only [hstate] at h
    exact lineRound_fed lineState_chunkSize hstate h
  | chunkData remaining =>
    simp only [hstate] at h
    obtain _ | r := remaining
    · exact absurd hstate hd.2
    · cases unread with
      | nil =>
        cases h
        exact fed_nothing d [] out
      | cons b unread =>
        obtain ⟨p, htake, h⟩ := map_eq_ok h
        obtain ⟨rfl, -⟩ := Prod.mk.inj h
        exact takeData_fed dataState_chunkData hstate htake
  | chunkDataCrlf =>
    simp only [hstate] at h
    exact lineRound_fed lineState_chunkDataCrlf hstate h
  | trailer =>
    simp only [hstate] at h
    exact lineRound_fed lineState_trailer hstate h

/-- **What a call leaves is the start of what single bytes leave.** -/
theorem prefix_payloadLoop (fuel : ℕ) {d : BodyDecoder} (hd : d.Proper) (unread out : List UInt8) :
    payloadLoop fuel d unread out <+: d.written unread out := by
  induction fuel generalizing d unread out with
  | zero => exact written_prefix d unread out
  | succ fuel ih =>
    rw [payloadLoop]
    cases hround : d.round unread out with
    | error e => exact written_prefix d unread out
    | ok p =>
      obtain ⟨⟨d', rest, out'⟩, go⟩ := p
      obtain ⟨used, rfl, hrun⟩ := round_fed hd hround
      rw [written_append hrun rest, nil_append]
      cases go with
      | false => exact written_prefix d' rest out'
      | true => exact ih (run_proper hd hrun) rest out'

/-! ### Reads -/

/-- What the calls of `decode` give in the end: the decoder and how many bytes were taken, or the
first error; and the payload. -/
structure Outcome where
  result : Except HttpErrorKind (BodyDecoder × ℕ)
  payload : List UInt8

/-- One call for each read, with what is pending before it. -/
def decodeReads : BodyDecoder → List UInt8 → ℕ → List UInt8 → List (List UInt8) → Outcome
  | d, _, consumed, out, [] => ⟨.ok (d, consumed), out⟩
  | d, pending, consumed, out, read :: reads =>
    match d.decode (pending ++ read) out with
    | .error e => ⟨.error e, d.payload (pending ++ read) out⟩
    | .ok (d, n, out) => decodeReads d ((pending ++ read).drop n) (consumed + n) out reads

/-- The same decoder, its trailers and whether the body is complete among the rest, with the same
payload and as many bytes taken; or the same error, one payload being the start of the other. -/
def Outcome.Same (x y : Outcome) : Prop :=
  match x.result, y.result with
  | .ok (d, consumed), .ok (d', consumed') =>
    d = d' ∧ d.trailers = d'.trailers ∧ d.isComplete = d'.isComplete ∧ consumed = consumed' ∧
      x.payload = y.payload
  | .error e, .error e' => e = e' ∧ (x.payload <+: y.payload ∨ y.payload <+: x.payload)
  | _, _ => False

/-- An outcome as feeding `bytes` gives it. -/
structure Outcome.Follows (x : Outcome) (d : BodyDecoder) (bytes : List UInt8) (consumed : ℕ)
    (out : List UInt8) : Prop where
  ok : ∀ d' rest out', d.run bytes out = .ok (d', rest, out') →
    x = ⟨.ok (d', consumed + (bytes.length - rest.length)), out'⟩
  error : ∀ e, d.run bytes out = .error e → x.result = .error e ∧ x.payload <+: d.written bytes out

theorem Outcome.Follows.same {x y : Outcome} {d : BodyDecoder} {bytes : List UInt8} {consumed : ℕ}
    {out : List UInt8} (hx : x.Follows d bytes consumed out) (hy : y.Follows d bytes consumed out) :
    x.Same y := by
  cases hrun : d.run bytes out with
  | ok r =>
    obtain ⟨d', rest, out'⟩ := r
    rw [hx.ok d' rest out' hrun, hy.ok d' rest out' hrun]
    exact ⟨rfl, rfl, rfl, rfl, rfl⟩
  | error e =>
    obtain ⟨hxe, hxp⟩ := hx.error e hrun
    obtain ⟨hye, hyp⟩ := hy.error e hrun
    rw [Outcome.Same, hxe, hye]
    exact ⟨rfl, prefix_or_prefix_of_prefix hxp hyp⟩

/-- **Reads end as their bytes end, fed one by one.** -/
theorem decodeReads_follows (reads : List (List UInt8)) {d : BodyDecoder} (hd : d.Proper)
    (pending : List UInt8) (consumed : ℕ) (out : List UInt8)
    (hpending : d.isComplete = true ∨ pending = []) :
    (decodeReads d pending consumed out reads).Follows d (pending ++ reads.flatten) consumed out := by
  induction reads generalizing d pending consumed out with
  | nil =>
    rw [flatten_nil, append_nil]
    have hrun : d.run pending out = .ok (d, pending, out) := by
      obtain hcomplete | rfl := hpending
      · exact run_complete d (beq_iff_eq.1 hcomplete) pending out
      · exact run_nil d out
    refine ⟨?_, ?_⟩
    · intro d' rest out' h
      rw [hrun] at h
      obtain ⟨rfl, rfl, rfl⟩ := ok_triple h
      rw [decodeReads, Nat.sub_self, Nat.add_zero]
    · intro e h
      rw [hrun] at h
      cases h
  | cons read reads ih =>
    rw [flatten_cons, ← append_assoc, decodeReads, decode_eq_run d hd]
    cases hrun : d.run (pending ++ read) out with
    | error e =>
      refine ⟨?_, ?_⟩
      · intro d' rest out' h
        rw [run_append, hrun] at h
        cases h
      · intro e' h
        rw [run_append, hrun] at h
        obtain rfl := Except.error.inj h
        exact ⟨rfl, (prefix_payloadLoop _ hd _ out).trans (written_mono d _ _ out)⟩
    | ok r =>
      obtain ⟨d₁, rest₁, out₁⟩ := r
      obtain ⟨used, hused⟩ := run_suffix hrun
      have hlen : used.length + rest₁.length = (pending ++ read).length := by
        rw [← hused, length_append]
      have hdrop : (pending ++ read).drop ((pending ++ read).length - rest₁.length) = rest₁ := by
        rw [← hused, length_append, Nat.add_sub_cancel, drop_left]
      have hrest := ih (run_proper hd hrun) rest₁ (consumed + ((pending ++ read).length - rest₁.length))
        out₁ (run_unread hrun)
      show Outcome.Follows (decodeReads d₁ ((pending ++ read).drop _) _ out₁ reads) d _ consumed out
      rw [hdrop]
      refine ⟨?_, ?_⟩
      · intro d' rest out' h
        rw [run_append, hrun] at h
        have hshort := (run_suffix h).length_le
        rw [hrest.ok d' rest out' h]
        simp only [length_append] at hlen hshort ⊢
        congr 3
        omega
      · intro e h
        rw [run_append, hrun] at h
        rw [written_append hrun]
        exact hrest.error e h

/-- A body of no bytes is complete with the first call. -/
theorem decode_fixed_zero {d : BodyDecoder} (h : d.state = .fixed 0) (input out : List UInt8) :
    d.decode input out = decode { d with state := .done } input out := by
  rw [decode, decode, decodeLoop, h]
  rfl

/-- **Two ways to split the same bytes into calls end the same.** -/
theorem decodeReads_same (framing : BodyFraming) (limits : Limits) (first first' : List UInt8)
    (reads reads' : List (List UInt8)) (h : (first :: reads).flatten = (first' :: reads').flatten) :
    (decodeReads (new framing limits) [] 0 [] (first :: reads)).Same
      (decodeReads (new framing limits) [] 0 [] (first' :: reads')) := by
  suffices hfollows : ∃ d, ∀ (read : List UInt8) (more : List (List UInt8)),
      (decodeReads (new framing limits) [] 0 [] (read :: more)).Follows d (read :: more).flatten 0 [] by
    obtain ⟨d, hd⟩ := hfollows
    exact (hd first reads).same (h ▸ hd first' reads')
  by_cases hzero : framing = .fixed 0
  · subst hzero
    refine ⟨{ new (.fixed 0) limits with state := .done }, ?_⟩
    intro read more
    have hcalls : decodeReads (new (.fixed 0) limits) [] 0 [] (read :: more) =
        decodeReads { new (.fixed 0) limits with state := .done } [] 0 [] (read :: more) := by
      rw [decodeReads, decodeReads, decode_fixed_zero rfl]
      cases hcall : decode { new (.fixed 0) limits with state := .done } ([] ++ read) [] with
      | ok r => rfl
      | error e =>
        have hproper : Proper { new (.fixed 0) limits with state := .done } :=
          ⟨State.noConfusion, State.noConfusion⟩
        rw [decode_eq_run _ hproper, run_complete _ rfl] at hcall
        cases hcall
    rw [hcalls]
    exact decodeReads_follows (read :: more) ⟨State.noConfusion, State.noConfusion⟩ [] 0 [] (.inr rfl)
  · refine ⟨new framing limits, ?_⟩
    intro read more
    exact decodeReads_follows (read :: more) (new_proper hzero limits) [] 0 [] (.inr rfl)

end HypeLlm.Http.BodyDecoder
