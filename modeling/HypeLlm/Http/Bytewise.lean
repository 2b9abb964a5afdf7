import HypeLlm.Http.Body
import HypeLlm.Lib.Results

/-!
# A body byte by byte

Decoding what was read gives what feeding it byte by byte gives, errors included.  Feeding does not
know where a read ended, so neither does decoding.

* `decode_eq_run` — decoding is feeding all bytes up to the end of the body;
* **`run_append`** — feeding two reads is feeding the second after the first.
-/

namespace HypeLlm.Http.BodyDecoder

open HypeLlm.Results HypeLlm.Words List

/-- One byte of a line, and what the line does when it ends there. -/
def feedLine (d : BodyDecoder) (maxLen : ℕ)
    (after : BodyDecoder → List UInt8 → Except HttpErrorKind BodyDecoder) (b : UInt8)
    (out : List UInt8) : Except HttpErrorKind (BodyDecoder × List UInt8) := do
  match ← d.lineByte maxLen b with
  | (none, d) => .ok (d, out)
  | (some line, d) =>
    let d ← after d line
    .ok (d, out)

/-- One byte of payload of which `remaining` are expected. -/
def feedData (d : BodyDecoder) (remaining : ℕ) (more : ℕ → State) (last : State) (b : UInt8)
    (out : List UInt8) : Except HttpErrorKind (BodyDecoder × List UInt8) := do
  let (d, out) ← d.emit [b] out
  .ok ({ d with state := if remaining - 1 = 0 then last else more (remaining - 1) }, out)

/-- One byte of a body. -/
def feed (d : BodyDecoder) (b : UInt8) (out : List UInt8) :
    Except HttpErrorKind (BodyDecoder × List UInt8) :=
  match d.state with
  | .done => .ok (d, out)
  | .fixed remaining => d.feedData remaining .fixed .done b out
  | .untilClose => d.emit [b] out
  | .chunkSize => d.feedLine d.limits.maxChunkLineBytes chunkSizeLine b out
  | .chunkData remaining => d.feedData remaining .chunkData .chunkDataCrlf b out
  | .chunkDataCrlf => d.feedLine 2 chunkEndLine b out
  | .trailer => d.feedLine d.limits.maxTrailerBytes trailerLine b out

/-- Feed bytes up to the end of the body. -/
def run (d : BodyDecoder) : List UInt8 → List UInt8 →
    Except HttpErrorKind (BodyDecoder × List UInt8 × List UInt8)
  | [], out => .ok (d, [], out)
  | b :: unread, out =>
    if d.isComplete then .ok (d, b :: unread, out)
    else do
      let (d, out) ← d.feed b out
      d.run unread out

/-- **A second read goes on where the first ended.** -/
theorem run_append (d : BodyDecoder) (a b out : List UInt8) :
    d.run (a ++ b) out = d.run a out >>= fun r => r.1.run (r.2.1 ++ b) r.2.2 := by
  induction a generalizing d out with
  | nil => rfl
  | cons x a ih =>
    rw [cons_append, run, run]
    split
    · rename_i hcomplete
      show _ = d.run (x :: a ++ b) out
      rw [cons_append, run, if_pos hcomplete]
    · cases hfeed : d.feed x out with
      | error e => rfl
      | ok r => exact ih r.1 r.2

/-! ### Payload -/

theorem emit_append (d : BodyDecoder) (x y out : List UInt8) :
    d.emit (x ++ y) out = d.emit x out >>= fun r => r.1.emit y r.2 := by
  have hnext : satAdd u64Max (satAdd u64Max d.decoded x.length) y.length =
      satAdd u64Max d.decoded (x ++ y).length := by
    simp only [satAdd, length_append]
    omega
  have hmono : satAdd u64Max d.decoded x.length ≤ satAdd u64Max d.decoded (x ++ y).length := by
    simp only [satAdd, length_append]
    omega
  rw [emit, emit]
  by_cases hx : d.limits.maxBodyBytes < satAdd u64Max d.decoded x.length
  · rw [if_pos (hx.trans_le hmono), if_pos hx]
    rfl
  · rw [if_neg hx]
    show _ = emit { d with decoded := _ } y (out ++ x)
    rw [emit, hnext]
    split
    · rfl
    · rw [append_assoc]

/-- No payload is expected where none remains. -/
def Proper (d : BodyDecoder) : Prop := d.state ≠ .fixed 0 ∧ d.state ≠ .chunkData 0

theorem new_proper {framing : BodyFraming} (h : framing ≠ .fixed 0) (limits : Limits) :
    (new framing limits).Proper := by
  cases framing with
  | none => exact ⟨State.noConfusion, State.noConfusion⟩
  | fixed n => exact ⟨fun hz => h (congrArg BodyFraming.fixed (State.fixed.inj hz)), State.noConfusion⟩
  | chunked => exact ⟨State.noConfusion, State.noConfusion⟩
  | untilClose => exact ⟨State.noConfusion, State.noConfusion⟩

/-- A state in which payload is expected. -/
structure DataState (more : ℕ → State) (last : State) : Prop where
  feed : ∀ (d : BodyDecoder) (r : ℕ) (b : UInt8) (out : List UInt8), d.state = more r →
    d.feed b out = d.feedData r more last b out
  notDone : ∀ r, more r ≠ .done

theorem dataState_fixed : DataState .fixed .done := by
  constructor
  · intro d r b out h
    rw [BodyDecoder.feed, h]
  · intro r h
    cases h

theorem dataState_chunkData : DataState .chunkData .chunkDataCrlf := by
  constructor
  · intro d r b out h
    rw [BodyDecoder.feed, h]
  · intro r h
    cases h

theorem emit_state {d d' : BodyDecoder} {data out out' : List UInt8}
    (h : d.emit data out = .ok (d', out')) :
    d'.state = d.state ∧ d'.limits = d.limits ∧ d'.lineBuf = d.lineBuf := by
  rw [emit] at h
  split at h
  · cases h
  · obtain ⟨rfl, -⟩ := Prod.mk.inj (Except.ok.inj h)
    exact ⟨rfl, rfl, rfl⟩

/-- The state that is kept while payload comes does not matter to how it is counted. -/
theorem emit_with_state (d : BodyDecoder) (s : State) (data out : List UInt8) :
    emit { d with state := s } data out = (d.emit data out).map fun r => ({ r.1 with state := s }, r.2) := by
  rw [emit, emit]
  split <;> rfl

/-- Taking payload is feeding its bytes. -/
theorem takeData_eq_run {more : ℕ → State} {last : State} (hdata : DataState more last) (r : ℕ)
    (d : BodyDecoder) (hstate : d.state = more (r + 1)) (b : UInt8) (unread out : List UInt8) :
    d.run (b :: unread) out =
      d.takeData (r + 1) more last (b :: unread) out >>= fun r => r.1.run r.2.1 r.2.2 := by
  have hnot : d.isComplete = false := by
    rw [isComplete, hstate]
    exact beq_eq_false_iff_ne.2 (hdata.notDone _)
  induction r generalizing d b unread out with
  | zero =>
    have htake : (b :: unread).take (0 + 1) = [b] := rfl
    rw [run, hnot, if_neg (by decide), hdata.feed d 1 b out hstate, feedData, takeData, htake]
    cases d.emit [b] out <;> rfl
  | succ r ih =>
    rw [run, hnot, if_neg (by decide), hdata.feed d (r + 2) b out hstate, feedData]
    cases unread with
    | nil =>
      have htake : [b].take (r + 1 + 1) = [b] := rfl
      rw [takeData, htake]
      cases d.emit [b] out <;> rfl
    | cons c unread =>
      have hchunk : (b :: c :: unread).take (r + 2) = [b] ++ (c :: unread).take (r + 1) := rfl
      have hleft : r + 1 + 1 - ([b] ++ (c :: unread).take (r + 1)).length =
          r + 1 - ((c :: unread).take (r + 1)).length := by
        rw [length_append, length_singleton]
        omega
      have hdrop : (b :: c :: unread).drop ([b] ++ (c :: unread).take (r + 1)).length =
          (c :: unread).drop ((c :: unread).take (r + 1)).length := by
        rw [length_append, length_singleton, Nat.add_comm, drop_succ_cons]
      rw [takeData, hchunk, emit_append, hleft, hdrop]
      cases hemit : d.emit [b] out with
      | error e => rfl
      | ok p =>
        have hnext := ih { p.1 with state := more (r + 1) } rfl c unread p.2 (by
          exact beq_eq_false_iff_ne.2 (hdata.notDone _))
        rw [takeData, emit_with_state] at hnext
        have hrest : ((Except.ok p : Except HttpErrorKind (BodyDecoder × List UInt8)) >>= fun q =>
            q.1.emit ((c :: unread).take (r + 1)) q.2) = p.1.emit ((c :: unread).take (r + 1)) p.2 := rfl
        show run { p.1 with state := more (r + 1) } (c :: unread) p.2 = _
        rw [hnext, hrest]
        cases p.1.emit ((c :: unread).take (r + 1)) p.2 <;> rfl

/-! ### Lines -/

/-- A state in which a line is read. -/
structure LineState (s : State) (maxLen : Limits → ℕ)
    (after : BodyDecoder → List UInt8 → Except HttpErrorKind BodyDecoder) : Prop where
  feed : ∀ (d : BodyDecoder) (b : UInt8) (out : List UInt8), d.state = s →
    d.feed b out = d.feedLine (maxLen d.limits) after b out
  notDone : s ≠ .done

theorem lineState_chunkSize : LineState .chunkSize Limits.maxChunkLineBytes chunkSizeLine :=
  ⟨fun d b out h => by rw [BodyDecoder.feed, h], by decide⟩

theorem lineState_chunkDataCrlf : LineState .chunkDataCrlf (fun _ => 2) chunkEndLine :=
  ⟨fun d b out h => by rw [BodyDecoder.feed, h], by decide⟩

theorem lineState_trailer : LineState .trailer Limits.maxTrailerBytes trailerLine :=
  ⟨fun d b out h => by rw [BodyDecoder.feed, h], by decide⟩

theorem lineByte_none {d d' : BodyDecoder} {maxLen : ℕ} {b : UInt8}
    (h : d.lineByte maxLen b = .ok (none, d')) : d'.state = d.state ∧ d'.limits = d.limits := by
  rw [lineByte] at h
  split at h
  · split at h <;> cases h
  · split at h
    · cases h
    · obtain ⟨-, rfl⟩ := Prod.mk.inj (Except.ok.inj h)
      exact ⟨rfl, rfl⟩

theorem lineByte_some {d d' : BodyDecoder} {maxLen : ℕ} {b : UInt8} {line : List UInt8}
    (h : d.lineByte maxLen b = .ok (some line, d')) : d'.state = d.state := by
  rw [lineByte] at h
  split at h
  · split at h
    · obtain ⟨-, rfl⟩ := Prod.mk.inj (Except.ok.inj h)
      rfl
    · cases h
  · split at h <;> cases h

/-- Reading a line is feeding its bytes. -/
theorem takeLine_eq_run {s : State} {maxLen : Limits → ℕ}
    {after : BodyDecoder → List UInt8 → Except HttpErrorKind BodyDecoder}
    (hline : LineState s maxLen after) (unread : List UInt8) (d : BodyDecoder) (hstate : d.state = s)
    (out : List UInt8) :
    d.run unread out = d.takeLine (maxLen d.limits) unread >>= fun r =>
      match r with
      | (none, d, unread) => .ok (d, unread, out)
      | (some line, d, unread) => after d line >>= fun d => d.run unread out := by
  have hnot : d.isComplete = false := by
    rw [isComplete, hstate]
    exact beq_eq_false_iff_ne.2 hline.notDone
  induction unread generalizing d with
  | nil => rfl
  | cons b unread ih =>
    rw [run, hnot, if_neg (by decide), hline.feed d b out hstate, feedLine, takeLine]
    cases hbyte : d.lineByte (maxLen d.limits) b with
    | error e => rfl
    | ok p =>
      obtain ⟨line, d'⟩ := p
      cases line with
      | some line =>
        show (after d' line >>= fun d => Except.ok (d, out)) >>= _ = after d' line >>= _
        cases after d' line <;> rfl
      | none =>
        obtain ⟨hs, hl⟩ := lineByte_none hbyte
        have hrest := ih d' (hs.trans hstate) (by rw [isComplete, hs]; exact hnot)
        rw [hl] at hrest
        exact hrest

/-- What is left of the bytes. -/
theorem takeLine_unread {d d' : BodyDecoder} {maxLen : ℕ} {unread rest line : List UInt8}
    (h : d.takeLine maxLen unread = .ok (some line, d', rest)) : rest.length < unread.length := by
  induction unread generalizing d with
  | nil => cases h
  | cons b unread ih =>
    rw [takeLine] at h
    split at h
    · cases h
    · obtain ⟨-, h⟩ := Prod.mk.inj (Except.ok.inj h)
      obtain ⟨-, rfl⟩ := Prod.mk.inj h
      exact Nat.lt_succ_self _
    · exact (ih h).trans (Nat.lt_succ_self _)

theorem takeLine_state {d d' : BodyDecoder} {maxLen : ℕ} {unread rest : List UInt8}
    {line : Option (List UInt8)} (h : d.takeLine maxLen unread = .ok (line, d', rest)) :
    d'.state = d.state := by
  induction unread generalizing d with
  | nil =>
    obtain ⟨-, h⟩ := Prod.mk.inj (Except.ok.inj h)
    rw [(Prod.mk.inj h).1]
  | cons b unread ih =>
    rw [takeLine] at h
    split at h
    · cases h
    · rename_i hbyte
      obtain ⟨-, h⟩ := Prod.mk.inj (Except.ok.inj h)
      rw [← (Prod.mk.inj h).1]
      exact lineByte_some hbyte
    · rename_i hbyte
      exact (ih h).trans (lineByte_none hbyte).1

/-! ### Decoding -/

theorem chunkSizeLine_proper {d d' : BodyDecoder} {line : List UInt8}
    (h : d.chunkSizeLine line = .ok d') : d'.Proper := by
  rw [chunkSizeLine] at h
  obtain ⟨size, -, h⟩ := bind_eq_ok h
  cases h
  by_cases hzero : size = 0
  · exact ⟨by simp [hzero], by simp [hzero]⟩
  · exact ⟨by simp [hzero], by simp [hzero]⟩

theorem chunkEndLine_proper {d d' : BodyDecoder} {line : List UInt8}
    (h : d.chunkEndLine line = .ok d') : d'.Proper := by
  rw [chunkEndLine] at h
  split at h
  · cases h
  · cases h
    exact ⟨State.noConfusion, State.noConfusion⟩

theorem pushTrailer_state {d d' : BodyDecoder} {line : List UInt8} (h : d.pushTrailer line = .ok d') :
    d'.state = d.state := by
  unfold pushTrailer at h
  repeat' split at h
  all_goals cases h
  rfl

theorem trailerLine_proper {d d' : BodyDecoder} {line : List UInt8} (hstate : d.state = .trailer)
    (h : d.trailerLine line = .ok d') : d'.Proper := by
  simp only [trailerLine] at h
  split at h
  · cases h
  · split at h
    · cases h
      exact ⟨State.noConfusion, State.noConfusion⟩
    · have hs := (pushTrailer_state h).trans hstate
      exact ⟨by simp [hs], by simp [hs]⟩

/-- A round that reads a line, when the rounds after it are feeding. -/
theorem lineRound_eq_run {s : State} {maxLen : Limits → ℕ}
    {after : BodyDecoder → List UInt8 → Except HttpErrorKind BodyDecoder}
    (hline : LineState s maxLen after)
    (hproper : ∀ {d d' : BodyDecoder} {line}, d.state = s → after d line = .ok d' → d'.Proper)
    {fuel : ℕ} (ih : ∀ (d : BodyDecoder) (unread out : List UInt8), d.Proper → unread.length < fuel →
      decodeLoop fuel d unread out = d.run unread out)
    (d : BodyDecoder) (hstate : d.state = s) (unread out : List UInt8)
    (hfuel : unread.length < fuel + 1) :
    (d.takeLine (maxLen d.limits) unread >>= fun r =>
      match r with
      | (none, d, unread) => .ok (d, unread, out)
      | (some line, d, unread) => after d line >>= fun d => decodeLoop fuel d unread out) =
      d.run unread out := by
  rw [takeLine_eq_run hline unread d hstate out]
  cases htake : d.takeLine (maxLen d.limits) unread with
  | error e => rfl
  | ok p =>
    obtain ⟨line, d', rest⟩ := p
    cases line with
    | none => rfl
    | some line =>
      show (after d' line >>= fun d => decodeLoop fuel d rest out) =
        after d' line >>= fun d => d.run rest out
      have hs := (takeLine_state htake).trans hstate
      have hshort := takeLine_unread htake
      cases hafter : after d' line with
      | error e => rfl
      | ok d'' => exact ih d'' rest out (hproper hs hafter) (by omega)

/-- Where payload is left to come, some is. -/
theorem proper_left {more : ℕ → State} {last : State} (hmore : more = .fixed ∨ more = .chunkData)
    (hlast : last ≠ .fixed 0 ∧ last ≠ .chunkData 0) (d : BodyDecoder) (left : ℕ) :
    Proper { d with state := if left = 0 then last else more left } := by
  show (if left = 0 then last else more left) ≠ _ ∧ (if left = 0 then last else more left) ≠ _
  split
  · exact hlast
  · rename_i hleft
    obtain rfl | rfl := hmore
    · exact ⟨fun hz => hleft (State.fixed.inj hz), State.noConfusion⟩
    · exact ⟨State.noConfusion, fun hz => hleft (State.chunkData.inj hz)⟩

theorem takeData_proper {more : ℕ → State} {last : State} (hmore : more = .fixed ∨ more = .chunkData)
    (hlast : last ≠ .fixed 0 ∧ last ≠ .chunkData 0)
    {d d' : BodyDecoder} {remaining : ℕ} {unread rest out out' : List UInt8}
    (h : d.takeData remaining more last unread out = .ok (d', rest, out')) :
    d'.Proper ∧ rest = unread.drop (unread.take remaining).length := by
  rw [takeData] at h
  obtain ⟨p, -, h⟩ := bind_eq_ok h
  obtain ⟨rfl, hrest⟩ := Prod.mk.inj (Except.ok.inj h)
  exact ⟨proper_left hmore hlast p.1 _, (Prod.mk.inj hrest).1.symm⟩

/-- A round that takes payload, when the rounds after it are feeding. -/
theorem dataRound_eq_run {more : ℕ → State} {last : State} (hdata : DataState more last)
    (hmore : more = .fixed ∨ more = .chunkData) (hlast : last ≠ .fixed 0 ∧ last ≠ .chunkData 0)
    {fuel : ℕ} (ih : ∀ (d : BodyDecoder) (unread out : List UInt8), d.Proper → unread.length < fuel →
      decodeLoop fuel d unread out = d.run unread out)
    (d : BodyDecoder) (r : ℕ) (hstate : d.state = more (r + 1)) (b : UInt8) (unread out : List UInt8)
    (hfuel : (b :: unread).length < fuel + 1) :
    (d.takeData (r + 1) more last (b :: unread) out >>= fun p => decodeLoop fuel p.1 p.2.1 p.2.2) =
      d.run (b :: unread) out := by
  rw [takeData_eq_run hdata r d hstate b unread out]
  cases htake : d.takeData (r + 1) more last (b :: unread) out with
  | error e => rfl
  | ok p =>
    obtain ⟨d', rest, out'⟩ := p
    obtain ⟨hproper, hrest⟩ := takeData_proper hmore hlast htake
    refine ih d' rest out' hproper ?_
    rw [hrest, take_succ_cons, length_cons, drop_succ_cons, length_drop]
    rw [length_cons] at hfuel
    omega

theorem run_untilClose (d : BodyDecoder) (hstate : d.state = .untilClose) (b : UInt8)
    (unread out : List UInt8) :
    d.run (b :: unread) out = d.emit (b :: unread) out >>= fun r => .ok (r.1, [], r.2) := by
  have hnot : d.isComplete = false := by
    rw [isComplete, hstate]
    rfl
  have hfeed : d.feed b out = d.emit [b] out := by rw [feed, hstate]
  induction unread generalizing d b out with
  | nil =>
    rw [run, hnot, if_neg (by decide), hfeed]
    rfl
  | cons c unread ih =>
    rw [run, hnot, if_neg (by decide), hfeed]
    show _ = d.emit ([b] ++ c :: unread) out >>= _
    rw [emit_append]
    cases hemit : d.emit [b] out with
    | error e => rfl
    | ok p =>
      have hs := (emit_state hemit).1.trans hstate
      exact ih p.1 hs c p.2 (by rw [isComplete, hs]; rfl) (by rw [feed, hs])

theorem run_complete (d : BodyDecoder) (h : d.state = .done) (unread out : List UInt8) :
    d.run unread out = .ok (d, unread, out) := by
  cases unread with
  | nil => rfl
  | cons b unread => rw [run, if_pos (by rw [isComplete, h]; rfl)]

theorem run_nil (d : BodyDecoder) (out : List UInt8) : d.run [] out = .ok (d, [], out) := rfl

/-- **Decoding is feeding byte by byte.** -/
theorem decodeLoop_eq_run (fuel : ℕ) (d : BodyDecoder) (unread out : List UInt8) (hd : d.Proper)
    (hfuel : unread.length < fuel) : decodeLoop fuel d unread out = d.run unread out := by
  induction fuel generalizing d unread out with
  | zero => exact absurd hfuel (Nat.not_lt_zero _)
  | succ fuel ih =>
    have ih' : ∀ (d : BodyDecoder) (unread out : List UInt8), d.Proper → unread.length < fuel →
        decodeLoop fuel d unread out = d.run unread out := fun d unread out => ih d unread out
    rw [decodeLoop]
    cases hstate : d.state with
    | done => exact (run_complete d hstate unread out).symm
    | fixed remaining =>
      obtain _ | r := remaining
      · exact absurd hstate hd.1
      · cases unread with
        | nil => rfl
        | cons b unread =>
          exact dataRound_eq_run dataState_fixed (.inl rfl) (by decide) ih' d r hstate b unread out hfuel
    | untilClose =>
      cases unread with
      | nil => rfl
      | cons b unread => exact (run_untilClose d hstate b unread out).symm
    | chunkSize =>
      exact lineRound_eq_run lineState_chunkSize (fun _ => chunkSizeLine_proper) ih' d hstate unread out
        hfuel
    | chunkData remaining =>
      obtain _ | r := remaining
      · exact absurd hstate hd.2
      · cases unread with
        | nil => rfl
        | cons b unread =>
          exact dataRound_eq_run dataState_chunkData (.inr rfl) (by decide) ih' d r hstate b unread out
            hfuel
    | chunkDataCrlf =>
      exact lineRound_eq_run lineState_chunkDataCrlf (fun _ => chunkEndLine_proper) ih' d hstate unread out
        hfuel
    | trailer =>
      exact lineRound_eq_run lineState_trailer trailerLine_proper ih' d hstate unread out hfuel

theorem feedLine_proper {d d' : BodyDecoder} {maxLen : ℕ}
    {after : BodyDecoder → List UInt8 → Except HttpErrorKind BodyDecoder} {b : UInt8}
    {out out' : List UInt8} (hd : d.Proper)
    (hproper : ∀ {d₁ d' : BodyDecoder} {line}, d₁.state = d.state → after d₁ line = .ok d' → d'.Proper)
    (h : d.feedLine maxLen after b out = .ok (d', out')) : d'.Proper := by
  rw [feedLine] at h
  obtain ⟨⟨line, d₁⟩, hbyte, h⟩ := bind_eq_ok h
  cases line with
  | none =>
    obtain ⟨rfl, -⟩ := Prod.mk.inj (Except.ok.inj h)
    rw [Proper, (lineByte_none hbyte).1]
    exact hd
  | some line =>
    obtain ⟨d₂, hafter, h⟩ := bind_eq_ok h
    obtain ⟨rfl, -⟩ := Prod.mk.inj (Except.ok.inj h)
    exact hproper (lineByte_some hbyte) hafter

theorem feedData_proper {more : ℕ → State} {last : State} (hmore : more = .fixed ∨ more = .chunkData)
    (hlast : last ≠ .fixed 0 ∧ last ≠ .chunkData 0) {d d' : BodyDecoder} {remaining : ℕ} {b : UInt8}
    {out out' : List UInt8} (h : d.feedData remaining more last b out = .ok (d', out')) :
    d'.Proper := by
  rw [feedData] at h
  obtain ⟨p, -, h⟩ := bind_eq_ok h
  obtain ⟨rfl, -⟩ := Prod.mk.inj (Except.ok.inj h)
  exact proper_left hmore hlast p.1 (remaining - 1)

theorem feed_proper {d d' : BodyDecoder} {b : UInt8} {out out' : List UInt8} (hd : d.Proper)
    (h : d.feed b out = .ok (d', out')) : d'.Proper := by
  cases hstate : d.state with
  | done =>
    rw [feed, hstate] at h
    obtain ⟨rfl, -⟩ := Prod.mk.inj (Except.ok.inj h)
    exact hd
  | untilClose =>
    rw [feed, hstate] at h
    rw [Proper, (emit_state h).1]
    exact hd
  | fixed remaining =>
    rw [dataState_fixed.feed d remaining b out hstate] at h
    exact feedData_proper (.inl rfl) (by decide) h
  | chunkData remaining =>
    rw [dataState_chunkData.feed d remaining b out hstate] at h
    exact feedData_proper (.inr rfl) (by decide) h
  | chunkSize =>
    rw [lineState_chunkSize.feed d b out hstate] at h
    exact feedLine_proper hd (fun _ => chunkSizeLine_proper) h
  | chunkDataCrlf =>
    rw [lineState_chunkDataCrlf.feed d b out hstate] at h
    exact feedLine_proper hd (fun _ => chunkEndLine_proper) h
  | trailer =>
    rw [lineState_trailer.feed d b out hstate] at h
    exact feedLine_proper hd (fun hs => trailerLine_proper (hs.trans hstate)) h

theorem run_proper {d d' : BodyDecoder} {unread out rest out' : List UInt8} (hd : d.Proper)
    (h : d.run unread out = .ok (d', rest, out')) : d'.Proper := by
  induction unread generalizing d out with
  | nil =>
    obtain ⟨rfl, -⟩ := Prod.mk.inj (Except.ok.inj h)
    exact hd
  | cons b unread ih =>
    rw [run] at h
    split at h
    · obtain ⟨rfl, -⟩ := Prod.mk.inj (Except.ok.inj h)
      exact hd
    · obtain ⟨p, hfeed, h⟩ := bind_eq_ok h
      exact ih (feed_proper hd hfeed) h

/-- What is unread is the end of what was read. -/
theorem run_suffix {d d' : BodyDecoder} {unread out rest out' : List UInt8}
    (h : d.run unread out = .ok (d', rest, out')) : rest <:+ unread := by
  induction unread generalizing d out with
  | nil =>
    obtain ⟨-, h⟩ := Prod.mk.inj (Except.ok.inj h)
    rw [← (Prod.mk.inj h).1]
  | cons b unread ih =>
    rw [run] at h
    split at h
    · obtain ⟨-, h⟩ := Prod.mk.inj (Except.ok.inj h)
      rw [← (Prod.mk.inj h).1]
    · obtain ⟨p, hfeed, h⟩ := bind_eq_ok h
      exact (ih h).trans (suffix_cons b unread)

/-- Nothing is left before the body is complete. -/
theorem run_unread {d d' : BodyDecoder} {unread out rest out' : List UInt8}
    (h : d.run unread out = .ok (d', rest, out')) : d'.isComplete = true ∨ rest = [] := by
  induction unread generalizing d out with
  | nil =>
    obtain ⟨-, h⟩ := Prod.mk.inj (Except.ok.inj h)
    exact .inr (Prod.mk.inj h).1.symm
  | cons b unread ih =>
    rw [run] at h
    split at h
    · rename_i hcomplete
      obtain ⟨rfl, -⟩ := Prod.mk.inj (Except.ok.inj h)
      exact .inl hcomplete
    · obtain ⟨p, hfeed, h⟩ := bind_eq_ok h
      exact ih h

theorem decode_eq_run (d : BodyDecoder) (hd : d.Proper) (input out : List UInt8) :
    d.decode input out = d.run input out >>= fun r => .ok (r.1, input.length - r.2.1.length, r.2.2) := by
  rw [decode, decodeLoop_eq_run _ d input out hd (by omega)]
  cases d.run input out <;> rfl

end HypeLlm.Http.BodyDecoder
