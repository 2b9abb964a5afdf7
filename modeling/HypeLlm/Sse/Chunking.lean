import HypeLlm.Sse.Draining

/-!
# Where a stream is cut does not matter

A stream arrives in chunks, each of which is pushed and then drained.  The bytes of a push move the
framing of the parser, the lines of a drain its reading, and neither looks at the other, so a stream
comes to the same however it is cut: the events of its lines, or a failure after some of them.

* `feed_spec` — a run over chunks against the whole stream pushed at once;
* `feed_chunks` — two runs over one stream.
-/

namespace HypeLlm.Sse

open HypeLlm.Words List

namespace SseParser

/-- What a run over chunks delivered, and the error it ended with. -/
structure Fed where
  events : List SseEvent
  error : Option SseError
  deriving Repr, DecidableEq

/-- Push each chunk and drain the parser after it, until a call fails. -/
def feed (p : SseParser) : List (List UInt8) → Fed
  | [] => ⟨[], none⟩
  | chunk :: rest =>
    let p := p.push chunk
    match p.failed with
    | some e => ⟨[], some e⟩
    | none =>
      match p.drain with
      | (.error e, _) => ⟨[], some e⟩
      | (.ok events, p) =>
        let fed := p.feed rest
        ⟨events ++ fed.events, fed.error⟩

/-! ### Pushing moves the framing -/

variable {p q : SseParser}

/-- The parsers are at the same byte of a stream. -/
structure SameFraming (p q : SseParser) : Prop where
  limits : p.limits = q.limits
  lineBuf : p.lineBuf = q.lineBuf
  pendingCr : p.pendingCr = q.pendingCr
  bomPending : p.bomPending = q.bomPending
  failed : p.failed = q.failed

/-- What a parser has read is kept, and lines are added to those that wait. -/
structure Framed (p p' : SseParser) (added : List Line) : Prop where
  limits : p'.limits = p.limits
  current : p'.current = p.current
  sawData : p'.sawData = p.sawData
  pending : p'.pending = p.pending ++ added

theorem Framed.trans {p p' p'' : SseParser} {a b : List Line} (h : Framed p p' a)
    (h' : Framed p' p'' b) : Framed p p'' (a ++ b) :=
  ⟨h'.limits.trans h.limits, h'.current.trans h.current, h'.sawData.trans h.sawData, by
    rw [h'.pending, h.pending, append_assoc]⟩

/-- Two parsers at the same byte add the same lines. -/
def Alike (p q p' q' : SseParser) : Prop :=
  ∃ added, Framed p p' added ∧ Framed q q' added ∧ SameFraming p' q'

theorem Alike.trans {p' q' p'' q'' : SseParser} (h : Alike p q p' q') (h' : Alike p' q' p'' q'') :
    Alike p q p'' q'' := by
  obtain ⟨a, hp, hq, -⟩ := h
  obtain ⟨b, hp', hq', hframing⟩ := h'
  exact ⟨a ++ b, hp.trans hp', hq.trans hq', hframing⟩

/-- A step of the framing alone. -/
theorem Alike.silent {p' q' : SseParser} (hp : Framed p p' []) (hq : Framed q q' [])
    (h : SameFraming p' q') : Alike p q p' q' := ⟨[], hp, hq, h⟩

theorem finishLine_alike (h : SameFraming p q) : Alike p q p.finishLine q.finishLine := by
  obtain ⟨limits, lineBuf, pending, current, sawData, pendingCr, bomPending, failed⟩ := p
  obtain ⟨limits', lineBuf', pending', current', sawData', pendingCr', bomPending', failed'⟩ := q
  obtain ⟨rfl, rfl, rfl, rfl, rfl⟩ := h
  have hsilent : ∀ ps : List Line, ps = ps ++ [] := fun ps => (append_nil ps).symm
  simp only [finishLine]
  cases Utf8.decode lineBuf with
  | none =>
    exact .silent ⟨rfl, rfl, rfl, hsilent _⟩ ⟨rfl, rfl, rfl, hsilent _⟩ ⟨rfl, rfl, rfl, rfl, rfl⟩
  | some text =>
    dsimp only
    split_ifs
    · exact ⟨_, ⟨rfl, rfl, rfl, rfl⟩, ⟨rfl, rfl, rfl, rfl⟩, ⟨rfl, rfl, rfl, rfl, rfl⟩⟩
    · exact ⟨_, ⟨rfl, rfl, rfl, rfl⟩, ⟨rfl, rfl, rfl, rfl⟩, ⟨rfl, rfl, rfl, rfl, rfl⟩⟩
    · exact .silent ⟨rfl, rfl, rfl, hsilent _⟩ ⟨rfl, rfl, rfl, hsilent _⟩ ⟨rfl, rfl, rfl, rfl, rfl⟩
    · exact ⟨_, ⟨rfl, rfl, rfl, rfl⟩, ⟨rfl, rfl, rfl, rfl⟩, ⟨rfl, rfl, rfl, rfl, rfl⟩⟩

theorem bufferByte_alike (h : SameFraming p q) (byte : UInt8) :
    Alike p q (p.bufferByte byte) (q.bufferByte byte) := by
  obtain ⟨limits, lineBuf, pending, current, sawData, pendingCr, bomPending, failed⟩ := p
  obtain ⟨limits', lineBuf', pending', current', sawData', pendingCr', bomPending', failed'⟩ := q
  obtain ⟨rfl, rfl, rfl, rfl, rfl⟩ := h
  have hsilent : ∀ ps : List Line, ps = ps ++ [] := fun ps => (append_nil ps).symm
  simp only [bufferByte]
  split_ifs <;>
    exact .silent ⟨rfl, rfl, rfl, hsilent _⟩ ⟨rfl, rfl, rfl, hsilent _⟩ ⟨rfl, rfl, rfl, rfl, rfl⟩

theorem setCr_alike (h : SameFraming p q) (cr : Bool) :
    Alike p q { p with pendingCr := cr } { q with pendingCr := cr } :=
  .silent ⟨rfl, rfl, rfl, (append_nil _).symm⟩ ⟨rfl, rfl, rfl, (append_nil _).symm⟩
    ⟨h.limits, h.lineBuf, rfl, h.bomPending, h.failed⟩

/-- **One byte** moves two parsers alike. -/
theorem pushByte_alike (h : SameFraming p q) (byte : UInt8) :
    Alike p q (p.pushByte byte) (q.pushByte byte) := by
  have hclear := setCr_alike h false
  have hframing := hclear.choose_spec.2.2
  have hline := finishLine_alike hframing
  have hfailed := hline.choose_spec.2.2.failed
  simp only [pushByte, h.pendingCr]
  split
  · exact hclear
  · split
    · exact hclear.trans hline
    · split
      · by_cases hfail : ({ q with pendingCr := false } : SseParser).finishLine.failed.isSome = true
        · rw [if_pos hfail, if_pos (hfailed ▸ hfail)]
          exact hclear.trans hline
        · rw [if_neg hfail, if_neg (hfailed ▸ hfail)]
          exact (hclear.trans hline).trans (setCr_alike hline.choose_spec.2.2 true)
      · exact hclear.trans (bufferByte_alike hframing byte)

theorem push_failed (h : p.failed.isSome = true) (bytes : List UInt8) : p.push bytes = p := by
  cases bytes with
  | nil => rfl
  | cons byte bytes => rw [push, if_pos h]

theorem push_append (p : SseParser) (a b : List UInt8) : p.push (a ++ b) = (p.push a).push b := by
  induction a generalizing p with
  | nil => rfl
  | cons byte a ih =>
    rw [cons_append, push, push]
    split
    next hfailed => rw [push_failed hfailed]
    next => exact ih _

/-- **Bytes** move two parsers alike. -/
theorem push_alike (h : SameFraming p q) (bytes : List UInt8) :
    Alike p q (p.push bytes) (q.push bytes) := by
  induction bytes generalizing p q with
  | nil => exact .silent ⟨rfl, rfl, rfl, (append_nil _).symm⟩ ⟨rfl, rfl, rfl, (append_nil _).symm⟩ h
  | cons byte bytes ih =>
    rw [push, push, h.failed]
    split
    · exact .silent ⟨rfl, rfl, rfl, (append_nil _).symm⟩ ⟨rfl, rfl, rfl, (append_nil _).symm⟩ h
    · have hbyte := pushByte_alike h byte
      exact hbyte.trans (ih hbyte.choose_spec.2.2)

theorem push_framed (p : SseParser) (bytes : List UInt8) :
    ∃ added, Framed p (p.push bytes) added := by
  obtain ⟨added, hp, -⟩ := push_alike (p := p) ⟨rfl, rfl, rfl, rfl, rfl⟩ bytes
  exact ⟨added, hp⟩

/-! ### Draining moves the reading -/

/-- The parsers are at the same line of an event. -/
structure SameReading (p q : SseParser) : Prop where
  limits : p.limits = q.limits
  current : p.current = q.current
  sawData : p.sawData = q.sawData
  failed : p.failed = q.failed

theorem takeLine_reading (h : SameReading p q) (line : Line) :
    (p.takeLine line).1 = (q.takeLine line).1 ∧
      SameReading (p.takeLine line).2 (q.takeLine line).2 := by
  obtain ⟨limits, lineBuf, pending, current, sawData, pendingCr, bomPending, failed⟩ := p
  obtain ⟨limits', lineBuf', pending', current', sawData', pendingCr', bomPending', failed'⟩ := q
  obtain ⟨rfl, rfl, rfl, rfl⟩ := h
  cases line with
  | comment => exact ⟨rfl, rfl, rfl, rfl, rfl⟩
  | blank => cases sawData <;> exact ⟨rfl, rfl, rfl, rfl, rfl⟩
  | field name value =>
    cases hparse : Decimal.parse u64Max value <;> simp only [takeLine, hparse] <;> split_ifs <;>
      exact ⟨rfl, rfl, rfl, rfl, rfl⟩

theorem consume_reading (h : SameReading p q) (lines : List Line) :
    (p.consume lines).1 = (q.consume lines).1 ∧
      SameReading (p.consume lines).2 (q.consume lines).2 := by
  induction lines generalizing p q with
  | nil => exact ⟨rfl, h⟩
  | cons line lines ih =>
    obtain ⟨hevent, hnext⟩ := takeLine_reading h line
    obtain ⟨hevents, hlast⟩ := ih hnext
    refine ⟨?_, hlast⟩
    rw [consume, consume, hevent, hevents]

/-- Lines consumed leave the framing, but for a failure. -/
structure SameBytes (p q : SseParser) : Prop where
  limits : p.limits = q.limits
  lineBuf : p.lineBuf = q.lineBuf
  pendingCr : p.pendingCr = q.pendingCr
  bomPending : p.bomPending = q.bomPending

theorem takeLine_bytes (p : SseParser) (line : Line) : SameBytes (p.takeLine line).2 p := by
  obtain ⟨limits, lineBuf, pending, current, sawData, pendingCr, bomPending, failed⟩ := p
  cases line with
  | comment => exact ⟨rfl, rfl, rfl, rfl⟩
  | blank => cases sawData <;> exact ⟨rfl, rfl, rfl, rfl⟩
  | field name value =>
    cases hparse : Decimal.parse u64Max value <;> simp only [takeLine, hparse] <;> split_ifs <;>
      exact ⟨rfl, rfl, rfl, rfl⟩

theorem consume_bytes (p : SseParser) (lines : List Line) : SameBytes (p.consume lines).2 p := by
  induction lines generalizing p with
  | nil => exact ⟨rfl, rfl, rfl, rfl⟩
  | cons line lines ih =>
    have hfirst := takeLine_bytes p line
    have hrest := ih (p.takeLine line).2
    exact ⟨hrest.limits.trans hfirst.limits, hrest.lineBuf.trans hfirst.lineBuf,
      hrest.pendingCr.trans hfirst.pendingCr, hrest.bomPending.trans hfirst.bomPending⟩

/-! ### Runs -/

/-- **A run against the whole stream.**  The run meets no error exactly when the stream pushed at once
and its lines consumed meet none, and delivers then the events of all the lines; what a run that
fails has delivered are the first of them. -/
theorem feed_spec (chunks : List (List UInt8)) (hp : p.failed = none) (hpending : p.pending = []) :
    (p.feed chunks).events <+: (p.consume (p.push chunks.flatten).pending).1 ∧
      ((p.feed chunks).error = none ↔ (p.push chunks.flatten).failed = none ∧
        (p.consume (p.push chunks.flatten).pending).2.failed = none) ∧
      ((p.feed chunks).error = none →
        (p.feed chunks).events = (p.consume (p.push chunks.flatten).pending).1) := by
  induction chunks generalizing p with
  | nil =>
    have hwhole : p.push [].flatten = p := rfl
    rw [hwhole, hpending]
    exact ⟨ nil_prefix, ⟨fun _ => ⟨hp, hp⟩, fun _ => rfl⟩, fun _ => rfl⟩
  | cons chunk rest ih =>
    have hwhole : p.push (chunk :: rest).flatten = (p.push chunk).push rest.flatten := by
      rw [flatten_cons, push_append]
    obtain ⟨first, hfirst⟩ := push_framed p chunk
    obtain ⟨added, hadded⟩ := push_framed (p.push chunk) rest.flatten
    have hreading : (p.push chunk).failed = none → SameReading (p.push chunk) p := fun h =>
      ⟨hfirst.limits, hfirst.current, hfirst.sawData, h.trans hp.symm⟩
    have hlines : ((p.push chunk).push rest.flatten).pending = (p.push chunk).pending ++ added :=
      hadded.pending
    rw [hwhole, hlines, consume_append]
    cases hpush : (p.push chunk).failed with
    | some e =>
      -- the push fails, and so does the whole stream pushed at once
      have hfeed : p.feed (chunk :: rest) = ⟨[], some e⟩ := by
        rw [feed]
        simp only [hpush]
      have hstuck : (p.push chunk).push rest.flatten = p.push chunk := push_failed (by simp [hpush]) _
      rw [hfeed, hstuck, hpush]
      exact ⟨ nil_prefix, by simp, by simp⟩
    | none =>
      obtain ⟨hevents, hnext⟩ := consume_reading (hreading hpush) (p.push chunk).pending
      rcases drain_cases hpush with ⟨hfine, hdrain⟩ | ⟨hfail, e, q, hdrain⟩
      · -- the drained parser is at the same byte as the one that was not, and has read its lines
        have hbytes := consume_bytes (p.push chunk) (p.push chunk).pending
        have hframing : SameFraming (((p.push chunk).consume (p.push chunk).pending).2.waiting [])
            (p.push chunk) :=
          ⟨hbytes.limits, hbytes.lineBuf, hbytes.pendingCr, hbytes.bomPending, hfine.trans hpush.symm⟩
        obtain ⟨more, hdrained, hundrained, hlast⟩ := push_alike hframing rest.flatten
        have hmore : added = more := append_cancel_left (hlines.symm.trans hundrained.pending)
        have hread : SameReading (((p.push chunk).consume (p.push chunk).pending).2.waiting [])
            (p.consume (p.push chunk).pending).2 :=
          ⟨hnext.limits, hnext.current, hnext.sawData, hnext.failed⟩
        obtain ⟨hrest, hend⟩ := consume_reading hread added
        have hwaiting : ((((p.push chunk).consume (p.push chunk).pending).2.waiting []).push
            rest.flatten).pending = added := by
          rw [hdrained.pending, hmore]
          rfl
        obtain ⟨hpre, hok, hall⟩ := ih
          (p := ((p.push chunk).consume (p.push chunk).pending).2.waiting []) hfine rfl
        rw [hwaiting, hrest] at hpre hall
        rw [hwaiting, hend.failed, hlast.failed] at hok
        have hfeed : p.feed (chunk :: rest) =
            ⟨((p.push chunk).consume (p.push chunk).pending).1 ++
                ((((p.push chunk).consume (p.push chunk).pending).2.waiting []).feed rest).events,
              ((((p.push chunk).consume (p.push chunk).pending).2.waiting []).feed rest).error⟩ := by
          rw [feed]
          simp only [hpush, hdrain]
        rw [hfeed, hevents]
        exact ⟨(prefix_append_right_inj _).2 hpre, hok, fun h => by rw [hall h]⟩
      · -- a line of this chunk fails, and so do all the lines consumed at once
        have hfeed : p.feed (chunk :: rest) = ⟨[], some e⟩ := by
          rw [feed]
          simp only [hpush, hdrain]
        rw [hnext.failed] at hfail
        have hstays := consume_failed hfail added
        rw [hfeed]
        refine ⟨ nil_prefix, ⟨fun h => by simp at h, fun h => ?_⟩, fun h => by simp at h⟩
        rw [h.2] at hstays
        cases hstays

/-- **Where a stream is cut does not matter.**  Of two ways to cut one stream, with any limits, either
both meet no error and deliver the same events, or both fail and what the one has delivered is a
beginning of what the other has. -/
theorem feed_chunks (limits : SseLimits) (bytes : List UInt8) (a b : List (List UInt8))
    (ha : a.flatten = bytes) (hb : b.flatten = bytes) :
    ((new limits).feed a).error = none ∧ ((new limits).feed b).error = none ∧
        ((new limits).feed a).events = ((new limits).feed b).events ∨
      ((new limits).feed a).error ≠ none ∧ ((new limits).feed b).error ≠ none ∧
        (((new limits).feed a).events <+: ((new limits).feed b).events ∨
          ((new limits).feed b).events <+: ((new limits).feed a).events) := by
  obtain ⟨hpre, hok, hall⟩ := feed_spec (p := new limits) a rfl rfl
  obtain ⟨hpre', hok', hall'⟩ := feed_spec (p := new limits) b rfl rfl
  rw [ha] at hpre hok hall
  rw [hb] at hpre' hok' hall'
  by_cases h : ((new limits).feed a).error = none
  · have h' := hok'.2 (hok.1 h)
    exact .inl ⟨h, h', (hall h).trans (hall' h').symm⟩
  · have h' : ((new limits).feed b).error ≠ none := fun h' => h (hok.2 (hok'.1 h'))
    exact .inr ⟨h, h', prefix_or_prefix_of_prefix hpre hpre'⟩

end SseParser

namespace Sample

/-- An event, and a line that is no text. -/
def brokenStream : List UInt8 := Utf8.encode "data:1\r\n\r\n".toList ++ [0xFF, 0x0A]

/-- Cut inside a line end the stream gives its event before it fails, and in one piece it does
not. -/
theorem brokenStream_cut :
    ((SseParser.new .default).feed [brokenStream.take 9, brokenStream.drop 9]).events.length = 1 ∧
      ((SseParser.new .default).feed [brokenStream]).events.length = 0 ∧
      ((SseParser.new .default).feed [brokenStream.take 9, brokenStream.drop 9]).error ≠ none ∧
      ((SseParser.new .default).feed [brokenStream]).error ≠ none := by
  have hone : ((SseParser.new .default).feed [brokenStream.take 9, brokenStream.drop 9]).events.length
      = 1 := by decide +kernel
  have hnone : ((SseParser.new .default).feed [brokenStream]).events.length = 0 := by decide +kernel
  rcases SseParser.feed_chunks .default brokenStream [brokenStream.take 9, brokenStream.drop 9]
      [brokenStream] (by simp) (by simp) with ⟨-, -, heq⟩ | ⟨hfail, hfail', -⟩
  · rw [heq, hnone] at hone
    cases hone
  · exact ⟨hone, hnone, hfail, hfail'⟩

end Sample

end HypeLlm.Sse
