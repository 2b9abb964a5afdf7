import HypeLlm.Store.Streaming

/-!
# Recovery from a torn tail

A crash leaves a beginning of what was written.  Replaying it gives the records that are wholly
there, in order, and reports the rest as a tail to cut off.  The one exception is a tail that holds,
behind its first byte, a whole frame of a higher sequence: bytes of a payload may spell one, and
replay then takes the tail for damage in the middle of the file.

* `replayFrom_file` — replaying whole records, from any point on;
* `replayFrom_take` — replaying a beginning of a log;
* **`torn_tail_recovers`** — the outcome, by what the torn bytes embed;
* `written_logs_can_be_refused` — a kind that is unknown by name and known by number reads back as
  tampering, and a log past the size limit is refused.
-/

namespace HypeLlm.Store

open List

/-- A record as it is appended. -/
structure Record where
  kind : RecordKind
  sequence : UInt64
  payload : List UInt8
  deriving Repr, DecidableEq

namespace Record

/-- A record that decoding gives back: its kind is not an unknown one with a known code, and its
payload is one that encoding accepts. -/
structure WellFormed (r : Record) : Prop where
  kind : r.kind.Canonical
  payload : r.payload.length ≤ maxPayloadLen

/-- The frame a record is read back as. -/
def frame (r : Record) : Frame := ⟨r.kind, r.sequence, r.payload, r.kind.isProtected⟩

variable (d : Digests) (macKey : List UInt8)

def bytes (r : Record) : List UInt8 := frameBytes d r.kind r.sequence r.payload macKey

/-- The file that appending the records writes. -/
def file (rs : List Record) : List UInt8 := rs.flatMap (bytes d macKey)

/-- The records wholly contained in the first `n` bytes of the file. -/
def contained : List Record → ℕ → List Record
  | [], _ => []
  | r :: rs, n =>
    if (r.bytes d macKey).length ≤ n then r :: contained rs (n - (r.bytes d macKey).length) else []

/-- What the first `n` bytes hold behind the contained records. -/
def torn (rs : List Record) (n : ℕ) : List UInt8 :=
  ((file d macKey rs).take n).drop (file d macKey (contained d macKey rs n)).length

/-- The sequence of the last record, zero when there is none. -/
def lastSequence (rs : List Record) : UInt64 := (rs.getLast?.map (·.sequence)).getD 0

/-- A whole frame of a sequence above `last` stands in `bytes`, behind the first byte. -/
def Embeds (bytes : List UInt8) (last sequence : UInt64) : Prop :=
  ∃ k, 1 ≤ k ∧ ∃ f, decode d (bytes.drop k) macKey = .ok f ∧ f.frame.sequence = sequence ∧
    last < sequence

end Record

/-! ### What the scan finds -/

section

variable {d : Digests} {macKey : List UInt8}

theorem isPrefixOf_of_decode {buf : List UInt8} {f : DecodedFrame}
    (h : decode d buf macKey = .ok f) : magic.isPrefixOf buf = true := by
  obtain ⟨header, hread, htotal, -⟩ := decode_ok d h
  have hmagic : Bytes.field (buf.take headerLen) 0 4 = magic := by
    by_contra hne
    rw [readHeader, if_pos hne] at hread
    cases hread
  rw [ isPrefixOf_iff_prefix, ← hmagic, Bytes.field, drop_zero, take_take]
  exact take_prefix _ _

theorem survivingAt_eq_some_iff {threshold sequence : UInt64} {buf : List UInt8} :
    survivingAt d macKey threshold buf = some sequence ↔
      ∃ f, decode d buf macKey = .ok f ∧ f.frame.sequence = sequence ∧ threshold < sequence := by
  constructor
  · intro h
    unfold survivingAt at h
    split at h
    · cases h
    · split at h
      · rename_i f hdecode
        split at h
        · rename_i hhigher
          cases h
          exact ⟨f, hdecode, rfl, hhigher⟩
        · cases h
      · cases h
  · rintro ⟨f, hdecode, rfl, hhigher⟩
    have hmagic := isPrefixOf_of_decode hdecode
    simp [survivingAt, hmagic, hdecode, hhigher]

/-- What survives stands somewhere in the bytes. -/
theorem exists_of_survivor {threshold sequence : UInt64} {buf : List UInt8}
    (h : survivor d macKey threshold buf = some sequence) :
    ∃ k, survivingAt d macKey threshold (buf.drop k) = some sequence := by
  induction buf with
  | nil => cases h
  | cons b bs ih =>
    rw [survivor] at h
    cases hhere : survivingAt d macKey threshold (b :: bs) with
    | some found =>
      rw [hhere, Option.some_or] at h
      cases h
      exact ⟨0, hhere⟩
    | none =>
      rw [hhere, Option.none_or] at h
      obtain ⟨k, hk⟩ := ih h
      exact ⟨k + 1, hk⟩

/-- Where nothing survives, no place holds a surviving frame. -/
theorem survivingAt_of_survivor {threshold : UInt64} {buf : List UInt8}
    (h : survivor d macKey threshold buf = none) (k : ℕ) :
    survivingAt d macKey threshold (buf.drop k) = none := by
  have hdrop := survivor_drop h k
  cases hbuf : buf.drop k with
  | nil => rfl
  | cons b bs =>
    rw [hbuf, survivor, Option.or_eq_none_iff] at hdrop
    exact hdrop.1

theorem embeds_of_surviving {bytes : List UInt8} {last sequence : UInt64}
    (h : survivingSequenceAfter d macKey bytes last = some sequence) :
    Record.Embeds d macKey bytes last sequence := by
  obtain ⟨k, hk⟩ := exists_of_survivor h
  rw [drop_drop] at hk
  exact ⟨1 + k, Nat.le_add_right 1 k, survivingAt_eq_some_iff.1 hk⟩

theorem not_embeds_of_surviving {bytes : List UInt8} {last : UInt64}
    (h : survivingSequenceAfter d macKey bytes last = none) (sequence : UInt64) :
    ¬ Record.Embeds d macKey bytes last sequence := by
  rintro ⟨k, hk, hembeds⟩
  have hnone := survivingAt_of_survivor h (k - 1)
  rw [drop_drop, Nat.add_sub_cancel' hk, survivingAt_eq_some_iff.2 hembeds] at hnone
  cases hnone

end

/-! ### Replaying a beginning of a log -/

namespace Record

variable {d : Digests} {macKey : List UInt8}

theorem contained_cons_of_le {r : Record} {rs : List Record} {n : ℕ}
    (h : (r.bytes d macKey).length ≤ n) :
    contained d macKey (r :: rs) n =
      r :: contained d macKey rs (n - (r.bytes d macKey).length) := if_pos h

theorem contained_cons_of_lt {r : Record} {rs : List Record} {n : ℕ}
    (h : n < (r.bytes d macKey).length) : contained d macKey (r :: rs) n = [] := if_neg (not_le.2 h)

theorem take_file_of_le {r : Record} {rs : List Record} {n : ℕ}
    (h : (r.bytes d macKey).length ≤ n) :
    (file d macKey (r :: rs)).take n =
      r.bytes d macKey ++ (file d macKey rs).take (n - (r.bytes d macKey).length) := by
  rw [file, flatMap_cons, take_append, take_of_length_le h]
  rfl

theorem take_file_of_lt {r : Record} {rs : List Record} {n : ℕ}
    (h : n < (r.bytes d macKey).length) :
    (file d macKey (r :: rs)).take n = (r.bytes d macKey).take n := by
  rw [file, flatMap_cons, take_append_of_le_length h.le]

theorem torn_cons_of_le {r : Record} {rs : List Record} {n : ℕ}
    (h : (r.bytes d macKey).length ≤ n) :
    torn d macKey (r :: rs) n = torn d macKey rs (n - (r.bytes d macKey).length) := by
  rw [torn, torn, contained_cons_of_le h, take_file_of_le h, file, flatMap_cons, length_append,
    ← drop_drop, drop_left]
  rfl

theorem torn_cons_of_lt {r : Record} {rs : List Record} {n : ℕ}
    (h : n < (r.bytes d macKey).length) :
    torn d macKey (r :: rs) n = (r.bytes d macKey).take n := by
  rw [torn, contained_cons_of_lt h, take_file_of_lt h]
  rfl

/-- Where the replay of the contained records has come to. -/
def reached (d : Digests) (macKey : List UInt8) (p : Progress) (rs : List Record) : Progress where
  frames := p.frames ++ rs.map frame
  offset := p.offset + (file d macKey rs).length
  previousSequence := (rs.getLast?.map (·.sequence)).or p.previousSequence

theorem reached_cons (p : Progress) (r : Record) (rs : List Record) :
    reached d macKey p (r :: rs) = reached d macKey
      ⟨p.frames ++ [r.frame], p.offset + (r.bytes d macKey).length, some r.sequence⟩ rs := by
  have hlast : ((r :: rs).getLast?.map (·.sequence)).or p.previousSequence =
      (rs.getLast?.map (·.sequence)).or (some r.sequence) := by
    cases rs with
    | nil => rfl
    | cons r' rs =>
      rw [getLast?_cons_cons]
      cases hne : (r' :: rs).getLast? with
      | none => simp at hne
      | some last => rfl
  rw [reached, reached, hlast]
  simp [file, Nat.add_assoc]

theorem replayFrom_bytes {retain : Frame → Bool} {p : Progress} {r : Record} (hwell : r.WellFormed)
    (rest : List UInt8) :
    replayFrom d macKey retain p (r.bytes d macKey ++ rest) =
      match p.accept retain ⟨r.frame, (r.bytes d macKey).length⟩ with
      | .error e => .error e
      | .ok p => replayFrom d macKey retain p rest :=
  replayFrom_frameBytes hwell.kind hwell.payload rest

/-- A record above the sequence before it is accepted. -/
theorem accept_of_lt {retain : Frame → Bool} {p : Progress} {r : Record} (length : ℕ)
    (h : ∀ previous, p.previousSequence = some previous → previous < r.sequence) :
    p.accept retain ⟨r.frame, length⟩ = .ok
      ⟨if retain r.frame then p.frames ++ [r.frame] else p.frames, p.offset + length,
        some r.sequence⟩ := by
  have hlower : p.previousSequence.filter (fun previous => r.sequence ≤ previous) = none := by
    rw [Option.filter_eq_none_iff]
    intro previous hprev
    simpa using h previous hprev
  have hsequence : r.frame.sequence = r.sequence := rfl
  simp only [Progress.accept, hsequence, hlower]

/-- **Replaying whole records** goes past them, whatever follows. -/
theorem replayFrom_file {rs : List Record} (hrs : ∀ r ∈ rs, r.WellFormed) (p : Progress)
    (hsorted : (rs.map (·.sequence)).Pairwise (· < ·))
    (hprevious : ∀ previous, p.previousSequence = some previous → ∀ r ∈ rs, previous < r.sequence)
    (rest : List UInt8) :
    replayFrom d macKey (fun _ => true) p (file d macKey rs ++ rest) =
      replayFrom d macKey (fun _ => true) (reached d macKey p rs) rest := by
  induction rs generalizing p with
  | nil =>
    have hhere : reached d macKey p [] = p := by simp [reached, file]
    rw [hhere]
    rfl
  | cons r rs ih =>
    rw [map_cons, pairwise_cons] at hsorted
    rw [file, flatMap_cons, append_assoc, replayFrom_bytes (hrs r mem_cons_self),
      accept_of_lt _ fun previous hprev => hprevious previous hprev r mem_cons_self, reached_cons]
    refine ih (fun r' hr' => hrs r' (mem_cons_of_mem r hr')) _ hsorted.2 ?_
    rintro previous hprev r' hr'
    cases hprev
    exact hsorted.1 r'.sequence (mem_map_of_mem hr')

/-- Replaying the beginning of a record stops at it. -/
theorem replayFrom_cut {r : Record} (hwell : r.WellFormed) (p : Progress) {n : ℕ}
    (hn : n < (r.bytes d macKey).length) (hne : (r.bytes d macKey).take n ≠ []) :
    replayFrom d macKey (fun _ => true) p ((r.bytes d macKey).take n) =
      p.stop .incomplete (survivingSequenceAfter d macKey ((r.bytes d macKey).take n) p.threshold) := by
  have hdecode : decode d ((r.bytes d macKey).take n) macKey = .error .incomplete :=
    decode_take_encoded d macKey hwell.kind hwell.payload hn
  have hrefusal : p.refusal .incomplete = none := by
    simp [Progress.refusal, FrameError.isIntegrityViolation, FrameError.isRecoverableTail]
  rw [replayFrom_error hne hdecode, hrefusal]

/-- The first `n` bytes are the contained records and what is torn. -/
theorem take_file (rs : List Record) (n : ℕ) :
    (file d macKey rs).take n = file d macKey (contained d macKey rs n) ++ torn d macKey rs n := by
  induction rs generalizing n with
  | nil => simp [torn, contained, file]
  | cons r rs ih =>
    by_cases hfits : (r.bytes d macKey).length ≤ n
    · rw [take_file_of_le hfits, ih, contained_cons_of_le hfits, torn_cons_of_le hfits, ← append_assoc]
      rfl
    · have hcut := not_le.1 hfits
      rw [take_file_of_lt hcut, contained_cons_of_lt hcut, torn_cons_of_lt hcut]
      rfl

/-- What is torn is nothing, or the beginning of a record. -/
theorem torn_cases (d : Digests) (macKey : List UInt8) (rs : List Record) (n : ℕ) :
    torn d macKey rs n = [] ∨ ∃ r ∈ rs, ∃ k < (r.bytes d macKey).length,
      torn d macKey rs n = (r.bytes d macKey).take k := by
  induction rs generalizing n with
  | nil =>
    left
    simp [torn, file]
  | cons r rs ih =>
    by_cases hfits : (r.bytes d macKey).length ≤ n
    · rw [torn_cons_of_le hfits]
      rcases ih (n - (r.bytes d macKey).length) with hnil | ⟨r', hr', hcut⟩
      · exact .inl hnil
      · exact .inr ⟨r', mem_cons_of_mem r hr', hcut⟩
    · have hcut := not_le.1 hfits
      exact .inr ⟨r, mem_cons_self, n, hcut, torn_cons_of_lt hcut⟩

/-- The encoded length of records. -/
def encodedLength (d : Digests) (macKey : List UInt8) (rs : List Record) : ℕ :=
  (rs.map fun r => (r.bytes d macKey).length).sum

theorem length_file (rs : List Record) : (file d macKey rs).length = encodedLength d macKey rs := by
  rw [file, length_flatMap, encodedLength]

/-- The contained records are the longest beginning of the records that fits. -/
theorem contained_spec (d : Digests) (macKey : List UInt8) (rs : List Record) (n : ℕ) :
    (contained d macKey rs n).IsPrefix rs ∧ encodedLength d macKey (contained d macKey rs n) ≤ n ∧
      ∀ r rest, rs = contained d macKey rs n ++ r :: rest →
        n < encodedLength d macKey (contained d macKey rs n) + (r.bytes d macKey).length := by
  induction rs generalizing n with
  | nil =>
    refine ⟨prefix_rfl, Nat.zero_le n, ?_⟩
    intro r rest h
    simp [contained] at h
  | cons r rs ih =>
    by_cases hfits : (r.bytes d macKey).length ≤ n
    · obtain ⟨hbeginning, hle, hmax⟩ := ih (n - (r.bytes d macKey).length)
      rw [contained_cons_of_le hfits]
      have hcons : ∀ l, encodedLength d macKey (r :: l) =
          (r.bytes d macKey).length + encodedLength d macKey l := fun l => by simp [encodedLength]
      refine ⟨(prefix_cons_inj r).2 hbeginning, by rw [hcons]; omega, ?_⟩
      intro r' rest h
      have hnext := hmax r' rest (cons.inj h).2
      rw [hcons]
      omega
    · rw [contained_cons_of_lt (not_le.1 hfits)]
      refine ⟨ nil_prefix, Nat.zero_le n, ?_⟩
      intro r' rest h
      obtain ⟨rfl, -⟩ := cons.inj h
      simpa [encodedLength] using hfits

/-- **Replaying the first `n` bytes** goes past the contained records and stops at the torn rest. -/
theorem replayFrom_take {rs : List Record} (hrs : ∀ r ∈ rs, r.WellFormed)
    (hsorted : (rs.map (·.sequence)).Pairwise (· < ·)) (n : ℕ) :
    replayFrom d macKey (fun _ => true) Progress.start ((file d macKey rs).take n) =
      let q := reached d macKey Progress.start (contained d macKey rs n)
      if torn d macKey rs n = [] then .ok q.finish
      else q.stop .incomplete (survivingSequenceAfter d macKey (torn d macKey rs n) q.threshold) := by
  have hsub := (contained_spec d macKey rs n).1.sublist
  rw [take_file, replayFrom_file (fun r hr => hrs r (hsub.subset hr)) _
    (hsorted.sublist (hsub.map _)) fun _ h => by cases h]
  dsimp only
  rcases torn_cases d macKey rs n with hnil | ⟨r, hr, k, hk, htorn⟩
  · rw [hnil, if_pos rfl, replayFrom_nil]
  · by_cases hempty : torn d macKey rs n = []
    · rw [hempty, if_pos rfl, replayFrom_nil]
    · rw [if_neg hempty]
      rw [htorn] at hempty ⊢
      exact replayFrom_cut (hrs r hr) _ hk hempty

theorem torn_eq_nil_iff {rs : List Record} {n : ℕ} (hn : n ≤ (file d macKey rs).length) :
    torn d macKey rs n = [] ↔ n = encodedLength d macKey (contained d macKey rs n) := by
  have hle := (contained_spec d macKey rs n).2.1
  rw [length_file] at hn
  rw [← length_eq_zero_iff, torn, length_drop, length_take, length_file, length_file]
  omega

end Record

open Record in
/-- **A torn log recovers.**  Of the first `n` bytes of a log within the size limit, replay returns
the records wholly contained in them and reports a tail exactly when the cut is inside a record;
where the torn bytes embed a whole frame of a higher sequence behind their first byte, and only
there, it reports damage instead. -/
theorem torn_tail_recovers (d : Digests) (split : ℕ → ℕ) (macKey : List UInt8) (rs : List Record)
    (hrs : ∀ r ∈ rs, r.WellFormed) (hsorted : (rs.map (·.sequence)).Pairwise (· < ·)) (n : ℕ)
    (hn : n ≤ (file d macKey rs).length) (hlimit : n ≤ maxLogBytes) :
    let kept := contained d macKey rs n
    let validLen := encodedLength d macKey kept
    let replay := replayRetaining split d macKey (fun _ => true) ((file d macKey rs).take n)
    (kept.IsPrefix rs ∧ validLen ≤ n ∧
        ∀ r rest, rs = kept ++ r :: rest → n < validLen + (r.bytes d macKey).length) ∧
      ((∃ sequence, Embeds d macKey (torn d macKey rs n) (lastSequence kept) sequence) →
        ∃ sequence, Embeds d macKey (torn d macKey rs n) (lastSequence kept) sequence ∧
          replay = .error (.midFileDamage validLen (lastSequence kept) sequence)) ∧
      ((¬ ∃ sequence, Embeds d macKey (torn d macKey rs n) (lastSequence kept) sequence) →
        replay = .ok ⟨kept.map frame, if n = validLen then none else some validLen,
          if n = validLen then none else some .incomplete, validLen⟩) := by
  intro kept validLen replay
  let q : Progress := ⟨kept.map frame, validLen, kept.getLast?.map (·.sequence)⟩
  have hreached : reached d macKey Progress.start kept = q := by
    simp [reached, Progress.start, length_file, validLen, q]
  have htake : replay = if torn d macKey rs n = [] then .ok q.finish
      else q.stop .incomplete (survivingSequenceAfter d macKey (torn d macKey rs n)
        (lastSequence kept)) := by
    have hlen : ((file d macKey rs).take n).length ≤ maxLogBytes := by
      rw [length_take]
      omega
    rw [show replay = _ from replayRetaining_eq d split macKey _ hlen,
      replayFrom_take hrs hsorted n, hreached]
    rfl
  have hnil := torn_eq_nil_iff hn
  refine ⟨contained_spec d macKey rs n, ?_, ?_⟩
  · rintro ⟨sequence, hembeds⟩
    cases hsurviving : survivingSequenceAfter d macKey (torn d macKey rs n) (lastSequence kept) with
    | none => exact absurd hembeds (not_embeds_of_surviving hsurviving sequence)
    | some found =>
      have hne : torn d macKey rs n ≠ [] := by
        intro hempty
        rw [hempty] at hsurviving
        cases hsurviving
      refine ⟨found, embeds_of_surviving hsurviving, ?_⟩
      rw [htake, if_neg hne, hsurviving]
      rfl
  · intro hnone
    have hsurviving : survivingSequenceAfter d macKey (torn d macKey rs n) (lastSequence kept) =
        none := by
      cases hsurviving : survivingSequenceAfter d macKey (torn d macKey rs n) (lastSequence kept) with
      | none => rfl
      | some found => exact absurd ⟨found, embeds_of_surviving hsurviving⟩ hnone
    rw [htake, hsurviving]
    by_cases hcut : n = validLen
    · rw [if_pos (hnil.2 hcut), if_pos hcut, if_pos hcut]
      rfl
    · rw [if_neg (mt hnil.1 hcut), if_neg hcut, if_neg hcut]
      rfl

namespace Sample

def twoRecords : List Record := [⟨.usageAggregate, 1, []⟩, ⟨.usageAggregate, 2, [7]⟩]

/-- A record of a kind that is unknown by name, under the code of a known one. -/
def misnamed : Record := ⟨.unknown 1, 1, []⟩

theorem replay_misnamed (split : ℕ → ℕ) :
    replayRetaining split storeDigests [] (fun _ => true) (misnamed.bytes storeDigests []) =
      .error (.integrity 0 .missingMac) := by
  have hlength : (misnamed.bytes storeDigests []).length ≤ maxLogBytes := by decide +kernel
  have hdecode : decode storeDigests (misnamed.bytes storeDigests []) [] = .error .missingMac := by
    decide +kernel
  have hne : misnamed.bytes storeDigests [] ≠ [] := by
    intro hnil
    rw [hnil] at hdecode
    cases hdecode
  rw [replayRetaining_eq storeDigests split [] _ hlength, replayFrom_error hne hdecode]
  rfl

/-- A record with the largest payload. -/
def large (sequence : UInt64) : Record :=
  ⟨.usageAggregate, sequence, replicate maxPayloadLen 0⟩

theorem length_large_payload (sequence : UInt64) : (large sequence).payload.length = maxPayloadLen := by
  simp only [large, length_replicate]

theorem large_wellFormed (sequence : UInt64) : (large sequence).WellFormed where
  kind _ h := by cases h
  payload := (length_large_payload sequence).le

theorem length_large (sequence : UInt64) :
    ((large sequence).bytes storeDigests []).length = 67108892 := by
  have hkind : (large sequence).kind = .usageAggregate := by simp only [large]
  have htotal : ∀ n, (Header.of .usageAggregate sequence n).total = headerLen + n + crcLen := by
    intro n
    simp only [Header.total, Header.crcEnd, Header.of, RecordKind.isProtected, Bool.false_eq_true,
      if_false, Nat.add_zero]
  have hsequence : (large sequence).sequence = sequence := by simp only [large]
  rw [Record.bytes, length_frameBytes, length_large_payload, hkind, hsequence, htotal]
  decide

def largeRecords : List Record := [large 1, large 2, large 3, large 4]

end Sample

open Record in
/-- A log cut inside its second record: the first is returned, and the tail is reported. -/
theorem half_written_record_is_cut_off :
    replayRetaining (fun _ => 5) storeDigests [] (fun _ => true)
        ((file storeDigests [] Sample.twoRecords).take 40) =
      .ok ⟨[⟨.usageAggregate, 1, [], false⟩], some 28, some .incomplete, 28⟩ := by
  have hkept : contained storeDigests [] Sample.twoRecords 40 = [⟨.usageAggregate, 1, []⟩] := by
    decide +kernel
  have hlength : encodedLength storeDigests [] [⟨.usageAggregate, 1, []⟩] = 28 := by decide +kernel
  have htorn : (torn storeDigests [] Sample.twoRecords 40).length = 12 := by decide +kernel
  have hwell : ∀ r ∈ Sample.twoRecords, r.WellFormed := by
    intro r hr
    simp only [Sample.twoRecords, mem_cons, not_mem_nil, or_false] at hr
    rcases hr with rfl | rfl <;> exact ⟨by decide, by decide⟩
  have hrecovers := (torn_tail_recovers storeDigests (fun _ => 5) [] Sample.twoRecords hwell
    (by decide) 40 (by decide +kernel) (by decide)).2.2
  rw [hkept, hlength] at hrecovers
  refine hrecovers ?_
  rintro ⟨sequence, k, -, f, hdecode, -⟩
  -- Twelve bytes are not enough for a header.
  have hlen := decode_length storeDigests hdecode
  rw [length_drop, htorn] at hlen
  unfold headerLen at hlen
  omega

open Record in
/-- **Some logs that were written are refused**: a misnamed record reads back as tampering, and a log
of well-formed records past the size limit is not read at all. -/
theorem written_logs_can_be_refused :
    replayRetaining (fun _ => 0) storeDigests [] (fun _ => true)
        (file storeDigests [] [Sample.misnamed]) = .error (.integrity 0 .missingMac) ∧
      (∀ r ∈ Sample.largeRecords, r.WellFormed) ∧
      (Sample.largeRecords.map (·.sequence)).Pairwise (· < ·) ∧
      replayRetaining (fun _ => 0) storeDigests [] (fun _ => true)
        (file storeDigests [] Sample.largeRecords) = .error (.tooLarge 268435568 268435456) := by
  refine ⟨?_, ?_, by decide, ?_⟩
  · have hfile : file storeDigests [] [Sample.misnamed] = Sample.misnamed.bytes storeDigests [] := by
      simp [file]
    rw [hfile]
    exact Sample.replay_misnamed _
  · intro r hr
    simp only [Sample.largeRecords, mem_cons, not_mem_nil, or_false] at hr
    rcases hr with rfl | rfl | rfl | rfl <;> exact Sample.large_wellFormed _
  · have hlength : (file storeDigests [] Sample.largeRecords).length = 268435568 := by
      rw [length_file]
      simp only [encodedLength, Sample.largeRecords, map_cons, map_nil, Sample.length_large, sum_cons,
        sum_nil, Nat.reduceAdd]
    rw [replayRetaining, hlength]
    rfl

end HypeLlm.Store
