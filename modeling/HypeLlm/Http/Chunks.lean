import HypeLlm.Http.Reads
import HypeLlm.Http.Request

/-!
# Chunks

A chunk is its size in hexadecimal, a line end, its data and a line end.  The last chunk has size zero
and is followed by an empty trailer section, so no chunk is written for empty data.

* `parseChunkSize_lowerHex` — a size is read back;
* `run_chunk` — what a chunk does to the decoder;
* `decodes_iff_fits` — chunks are decoded to their data exactly within the bounds;
* **`boundaries_and_chunks`** — neither reads nor what follows the last chunk make a difference.
-/

namespace HypeLlm.Http

open HypeLlm.Results HypeLlm.Words List

/-- A hexadecimal digit, a letter in lower case. -/
def hexByte (d : ℕ) : UInt8 := if d < 10 then UInt8.ofNat (0x30 + d) else UInt8.ofNat (0x57 + d)

/-- A number in hexadecimal. -/
def lowerHex (n : ℕ) : List UInt8 := if n = 0 then [0x30] else (Nat.digits 16 n).reverse.map hexByte

def encodeChunk (out data : List UInt8) : List UInt8 :=
  if data = [] then out else out ++ lowerHex data.length ++ crlf ++ data ++ crlf

def encodeLastChunk (out : List UInt8) : List UInt8 := out ++ (0x30 :: crlf ++ crlf)

/-- A body of chunks. -/
def encodeChunks (chunks : List (List UInt8)) : List UInt8 :=
  encodeLastChunk (chunks.foldl encodeChunk [])

/-! ### Sizes -/

theorem hexValue_hexByte {d : ℕ} (h : d < 16) : hexValue (hexByte d) = some d := by
  interval_cases d <;> rfl

theorem hexByte_plain {d : ℕ} (h : d < 16) : hexByte d ≠ 0x0A ∧ hexByte d ≠ 0x3B := by
  interval_cases d <;> decide

/-- A size ends with its last digit. -/
theorem lowerHex_eq {n : ℕ} (h : 0 < n) :
    lowerHex n = (if n / 16 = 0 then [] else lowerHex (n / 16)) ++ [hexByte (n % 16)] := by
  rw [lowerHex, if_neg h.ne', Nat.digits_def' (by decide) h, reverse_cons, map_append, map_singleton]
  congr 1
  split
  · rename_i hzero
    rw [hzero, Nat.digits_zero]
    rfl
  · rename_i hne
    rw [lowerHex, if_neg hne]

theorem lowerHex_plain (n : ℕ) : ∀ b ∈ lowerHex n, b ≠ 0x0A ∧ b ≠ 0x3B := by
  intro b hb
  rw [lowerHex] at hb
  split at hb
  · obtain rfl := mem_singleton.1 hb
    decide
  · obtain ⟨d, hd, rfl⟩ := mem_map.1 hb
    exact hexByte_plain (Nat.digits_lt_base (by decide) (mem_reverse.1 hd))

theorem lowerHex_ne_nil (n : ℕ) : lowerHex n ≠ [] := by
  intro h
  rcases Nat.eq_zero_or_pos n with rfl | hn
  · cases h
  · rw [lowerHex_eq hn] at h
    exact cons_ne_nil _ _ (append_eq_nil_iff.1 h).2

theorem lowerHex_length {n : ℕ} (h : n ≤ u64Max) : (lowerHex n).length ≤ 16 := by
  rw [lowerHex]
  split
  · decide
  · rw [length_map, length_reverse, Nat.digits_length_le_iff (by decide)]
    rw [u64Max] at h
    omega

theorem chunkDigit_hexByte {value d : ℕ} (hd : d < 16) (h : value * 16 + d ≤ u64Max) :
    chunkDigit value (hexByte d) = .ok (value * 16 + d) := by
  have hmul : value * 16 ≤ u64Max := (Nat.le_add_right _ d).trans h
  rw [chunkDigit, hexValue_hexByte hd]
  simp only [chunkDigit.checkedMul16, if_pos hmul, Option.bind_some, checkedAdd, if_pos h]

/-- The digits of a size give the size. -/
theorem foldlM_lowerHex (n : ℕ) (h : n ≤ u64Max) : (lowerHex n).foldlM chunkDigit 0 = .ok n := by
  induction n using Nat.strong_induction_on with
  | _ n ih =>
    rcases Nat.eq_zero_or_pos n with rfl | hn
    · rfl
    · have hdigit : chunkDigit (n / 16) (hexByte (n % 16)) = .ok n := by
        rw [chunkDigit_hexByte (Nat.mod_lt n (by decide)) (by omega)]
        congr 1
        omega
      have hpre : (if n / 16 = 0 then [] else lowerHex (n / 16)).foldlM chunkDigit 0 =
          .ok (n / 16) := by
        split
        · rename_i hzero
          rw [hzero]
          rfl
        · exact ih (n / 16) (Nat.div_lt_self hn (by decide)) (by omega)
      rw [lowerHex_eq hn, foldlM_append, hpre]
      show (chunkDigit (n / 16) (hexByte (n % 16)) >>= fun v => Except.ok v) = _
      rw [hdigit]
      rfl

/-- **A size is read back.** -/
theorem parseChunkSize_lowerHex {n : ℕ} (h : n ≤ u64Max) : parseChunkSize (lowerHex n) = .ok n := by
  have hplain : ∀ b ∈ lowerHex n, (decide (b ≠ 0x3B)) = true :=
    fun b hb => decide_eq_true (lowerHex_plain n b hb).2
  have htake : (lowerHex n).takeWhile (· ≠ 0x3B) = lowerHex n := takeWhile_eq_self_iff.2 hplain
  have hdrop : (lowerHex n).dropWhile (· ≠ 0x3B) = [] := dropWhile_eq_nil_iff.2 hplain
  have hlen := lowerHex_length h
  rw [parseChunkSize]
  simp only [htake, hdrop, if_neg (not_or.2 ⟨lowerHex_ne_nil n, not_lt.2 hlen⟩), foldlM_lowerHex n h]
  rfl

/-! ### Chunks as bytes -/

theorem encodeChunk_eq (out data : List UInt8) : encodeChunk out data = out ++ encodeChunk [] data := by
  rw [encodeChunk, encodeChunk]
  split
  · rw [append_nil]
  · simp only [nil_append, append_assoc]

theorem foldl_encodeChunk (chunks : List (List UInt8)) (out : List UInt8) :
    chunks.foldl encodeChunk out = out ++ chunks.flatMap (encodeChunk []) := by
  induction chunks generalizing out with
  | nil => rw [foldl_nil, flatMap_nil, append_nil]
  | cons data chunks ih => rw [foldl_cons, ih, encodeChunk_eq out data, flatMap_cons, append_assoc]

theorem encodeChunks_cons (data : List UInt8) (chunks : List (List UInt8)) :
    encodeChunks (data :: chunks) = encodeChunk [] data ++ encodeChunks chunks := by
  simp only [encodeChunks, encodeLastChunk, foldl_encodeChunk, flatMap_cons, nil_append, append_assoc]

/-- Limits that admit chunks, `decoded` bytes of payload being there already: the size of none is too
long for its line, and their data is not too much for the body. -/
def Fits (limits : Limits) (decoded : ℕ) (chunks : List (List UInt8)) : Prop :=
  (∀ data ∈ chunks, data ≠ [] → (lowerHex data.length).length ≤ limits.maxChunkLineBytes + 1) ∧
    decoded + chunks.flatten.length ≤ limits.maxBodyBytes

/-- The same for one chunk and those after it. -/
theorem fits_cons {limits : Limits} {decoded : ℕ} {data : List UInt8} {chunks : List (List UInt8)}
    (hne : data ≠ []) :
    Fits limits decoded (data :: chunks) ↔
      (lowerHex data.length).length ≤ limits.maxChunkLineBytes + 1 ∧
        Fits limits (decoded + data.length) chunks := by
  rw [Fits, Fits, flatten_cons, length_append, forall_mem_cons]
  constructor
  · rintro ⟨⟨hfirst, hrest⟩, htotal⟩
    exact ⟨hfirst hne, hrest, by omega⟩
  · rintro ⟨hfirst, hrest, htotal⟩
    exact ⟨⟨fun _ => hfirst, hrest⟩, by omega⟩

theorem fits_cons_nil {limits : Limits} {decoded : ℕ} {chunks : List (List UInt8)} :
    Fits limits decoded ([] :: chunks) ↔ Fits limits decoded chunks := by
  rw [Fits, Fits, flatten_cons, nil_append, forall_mem_cons]
  exact ⟨fun h => ⟨h.1.2, h.2⟩, fun h => ⟨⟨fun hne => absurd rfl hne, h.1⟩, h.2⟩⟩

namespace BodyDecoder

/-! ### What a line does -/

/-- A line with its end is read when it fits with its carriage return, and refused otherwise. -/
theorem takeLine_line (d : BodyDecoder) (maxLen : ℕ) {line : List UInt8} (hline : ∀ b ∈ line, b ≠ 0x0A)
    (rest : List UInt8) :
    d.takeLine maxLen (line ++ (crlf ++ rest)) =
      if d.lineBuf.length + line.length < max maxLen 2 + 2 then
        .ok (some (d.lineBuf ++ line), { d with lineBuf := [] }, rest)
      else .error (d.lineError maxLen) := by
  induction line generalizing d with
  | nil =>
    rw [nil_append, append_nil, length_nil, Nat.add_zero]
    show takeLine d maxLen (0x0D :: 0x0A :: rest) = _
    rw [takeLine, lineByte, if_neg (by decide)]
    by_cases hfull : max maxLen 2 + 2 ≤ d.lineBuf.length
    · rw [if_pos hfull, if_neg (not_lt.2 hfull)]
    · rw [if_neg hfull, if_pos (not_le.1 hfull)]
      simp only
      rw [takeLine, lineByte, if_pos rfl]
      simp only [getLast?_concat, if_true, dropLast_concat]
  | cons b line ih =>
    rw [cons_append, takeLine, lineByte, if_neg (hline b mem_cons_self), length_cons]
    by_cases hfull : max maxLen 2 + 2 ≤ d.lineBuf.length
    · rw [if_pos hfull, if_neg (by omega)]
    · rw [if_neg hfull]
      simp only
      rw [ih { d with lineBuf := d.lineBuf ++ [b] } fun x hx => hline x (mem_cons_of_mem b hx)]
      simp only [length_append, length_singleton, append_assoc, singleton_append, Nat.add_right_comm,
        Nat.add_assoc, lineError]

/-- A decoder between two chunks. -/
def BetweenChunks (d : BodyDecoder) : Prop := d.state = .chunkSize ∧ d.lineBuf = []

theorem run_sizeLine {d : BodyDecoder} (hd : d.BetweenChunks) {size : ℕ} (hsize : size ≤ u64Max)
    (rest out : List UInt8) :
    d.run (lowerHex size ++ (crlf ++ rest)) out =
      if (lowerHex size).length < max d.limits.maxChunkLineBytes 2 + 2 then
        run { d with state := if size = 0 then .trailer else .chunkData size } rest out
      else .error (d.lineError d.limits.maxChunkLineBytes) := by
  rw [takeLine_eq_run lineState_chunkSize _ d hd.1 out,
    takeLine_line d _ (fun b hb => (lowerHex_plain size b hb).1) rest, hd.2, length_nil, Nat.zero_add]
  split
  · show (chunkSizeLine { d with lineBuf := [] } (lowerHex size) >>= fun d => d.run rest out) = _
    rw [chunkSizeLine, parseChunkSize_lowerHex hsize, ← hd.2]
    rfl
  · rfl

theorem run_dataEnd {d : BodyDecoder} (hstate : d.state = .chunkDataCrlf) (hline : d.lineBuf = [])
    (rest out : List UInt8) :
    d.run (crlf ++ rest) out = run { d with state := .chunkSize } rest out := by
  obtain ⟨state, limits, lineBuf, decoded, trailerBytes, trailers⟩ := d
  obtain rfl : state = .chunkDataCrlf := hstate
  obtain rfl : lineBuf = [] := hline
  rw [takeLine_eq_run lineState_chunkDataCrlf _ _ rfl out]
  show (takeLine _ 2 ([] ++ (crlf ++ rest)) >>= _) = _
  rw [takeLine_line _ 2 (forall_mem_nil _) rest, if_pos (by simp)]
  rfl

/-- The data of a chunk, within the bound of the body. -/
theorem run_data {d : BodyDecoder} {data : List UInt8} (hstate : d.state = .chunkData data.length)
    (hline : d.lineBuf = []) (hne : data ≠ []) (hsum : d.decoded + data.length ≤ u64Max)
    (rest out : List UInt8) :
    d.run (data ++ (crlf ++ rest)) out =
      if d.limits.maxBodyBytes < d.decoded + data.length then .error .bodyTooLarge
      else run { d with state := .chunkSize, decoded := d.decoded + data.length } rest (out ++ data) := by
  obtain ⟨b, more, rfl⟩ := exists_cons_of_ne_nil hne
  have htake : (b :: more ++ (crlf ++ rest)).take (more.length + 1) = b :: more :=
    take_left' rfl
  have hdrop : (b :: more ++ (crlf ++ rest)).drop (b :: more).length = crlf ++ rest := drop_left
  rw [cons_append, takeData_eq_run dataState_chunkData more.length d hstate b _ out, takeData,
    ← cons_append, htake, emit, satAdd_eq hsum, hdrop]
  split
  · rfl
  · have hleft : more.length + 1 - (b :: more).length = 0 := Nat.sub_self _
    simp only [hleft, if_true]
    exact run_dataEnd (d := { d with state := .chunkDataCrlf, decoded := d.decoded + (b :: more).length })
      rfl hline rest _

/-- **What a chunk does**: within the bounds it adds its data, and it is refused otherwise. -/
theorem run_chunk {d : BodyDecoder} (hd : d.BetweenChunks) {data : List UInt8} (hne : data ≠ [])
    (hsum : d.decoded + data.length ≤ u64Max) (rest out : List UInt8) :
    d.run (encodeChunk [] data ++ rest) out =
      if (lowerHex data.length).length < max d.limits.maxChunkLineBytes 2 + 2 then
        if d.limits.maxBodyBytes < d.decoded + data.length then .error .bodyTooLarge
        else run { d with decoded := d.decoded + data.length } rest (out ++ data)
      else .error (d.lineError d.limits.maxChunkLineBytes) := by
  have hlength : data.length ≠ 0 := mt List.length_eq_zero_iff.1 hne
  have hbytes : encodeChunk [] data ++ rest =
      lowerHex data.length ++ (crlf ++ (data ++ (crlf ++ rest))) := by
    rw [encodeChunk, if_neg hne]
    simp only [nil_append, append_assoc]
  have hdata := run_data (d := { d with state := .chunkData data.length }) rfl hd.2 hne hsum rest out
  rw [hbytes, run_sizeLine hd ((Nat.le_add_left _ _).trans hsum), if_neg hlength, hdata, hd.1]

/-- What the last chunk does. -/
theorem run_lastChunk {d : BodyDecoder} (hd : d.BetweenChunks) (htrailer : d.trailerBytes = 0)
    (hmax : 2 ≤ d.limits.maxTrailerBytes) (after out : List UInt8) :
    d.run (encodeLastChunk [] ++ after) out =
      .ok ({ d with state := .done, trailerBytes := 2 }, after, out) := by
  obtain ⟨state, limits, lineBuf, decoded, trailerBytes, trailers⟩ := d
  obtain ⟨hstate, hline⟩ := hd
  obtain rfl : state = .chunkSize := hstate
  obtain rfl : lineBuf = [] := hline
  obtain rfl : trailerBytes = 0 := htrailer
  have hbytes : encodeLastChunk [] ++ after = lowerHex 0 ++ (crlf ++ (crlf ++ after)) := rfl
  have hfits : (lowerHex 0).length < max limits.maxChunkLineBytes 2 + 2 := by
    show 1 < _
    omega
  rw [hbytes, run_sizeLine ⟨rfl, rfl⟩ (by decide), if_pos hfits, if_pos rfl,
    takeLine_eq_run lineState_trailer _ _ rfl out]
  show (takeLine _ limits.maxTrailerBytes ([] ++ (crlf ++ after)) >>= _) = _
  rw [takeLine_line _ _ (forall_mem_nil _) after, if_pos (by simp)]
  have hended : trailerLine ⟨.trailer, limits, [], decoded, 0, trailers⟩ [] =
      .ok ⟨.done, limits, [], decoded, 2, trailers⟩ := if_neg (not_lt.2 hmax)
  show (trailerLine ⟨.trailer, limits, [], decoded, 0, trailers⟩ [] >>= fun d => d.run after out) = _
  rw [hended]
  exact run_complete _ rfl after out

/-- Chunks from a decoder between two of them. -/
theorem run_chunks {chunks : List (List UInt8)} {d : BodyDecoder} (hd : d.BetweenChunks)
    (htrailer : d.trailerBytes = 0) (hchunk : 2 < d.limits.maxChunkLineBytes)
    (hmax : 2 < d.limits.maxTrailerBytes) (hsum : d.decoded + chunks.flatten.length ≤ u64Max)
    (hdecoded : d.decoded ≤ d.limits.maxBodyBytes) (after out : List UInt8) :
    (∃ d', d.run (encodeChunks chunks ++ after) out = .ok (d', after, out ++ chunks.flatten) ∧
      d'.isComplete = true) ↔ Fits d.limits d.decoded chunks := by
  induction chunks generalizing d out with
  | nil =>
    have hlast := run_lastChunk hd htrailer hmax.le after out
    refine ⟨fun _ => ⟨forall_mem_nil _, hdecoded⟩, fun _ => ?_⟩
    refine ⟨{ d with state := .done, trailerBytes := 2 }, ?_, rfl⟩
    rw [flatten_nil, append_nil]
    exact hlast
  | cons data chunks ih =>
    by_cases hne : data = []
    · subst hne
      rw [encodeChunks_cons, fits_cons_nil]
      exact ih hd htrailer hchunk hmax hsum hdecoded out
    · rw [flatten_cons, length_append] at hsum
      rw [encodeChunks_cons, append_assoc, run_chunk hd hne (by omega), fits_cons hne]
      have hline : (lowerHex data.length).length < max d.limits.maxChunkLineBytes 2 + 2 ↔
          (lowerHex data.length).length ≤ d.limits.maxChunkLineBytes + 1 := by omega
      by_cases hlong : (lowerHex data.length).length ≤ d.limits.maxChunkLineBytes + 1
      · rw [if_pos (hline.2 hlong)]
        by_cases hlarge : d.limits.maxBodyBytes < d.decoded + data.length
        · rw [if_pos hlarge]
          refine ⟨?_, ?_⟩
          · rintro ⟨d', h, -⟩
            cases h
          · rintro ⟨-, -, htotal⟩
            omega
        · rw [if_neg hlarge, flatten_cons, ← append_assoc]
          refine (ih (d := { d with decoded := d.decoded + data.length }) hd htrailer hchunk hmax
            (by show d.decoded + data.length + _ ≤ _; omega) (not_lt.1 hlarge) (out ++ data)).trans ?_
          exact ⟨fun h => ⟨hlong, h⟩, fun h => h.2⟩
      · rw [if_neg (mt hline.1 hlong)]
        refine ⟨?_, fun h => absurd h.1 hlong⟩
        rintro ⟨d', h, -⟩
        cases h

/-- Chunks are decoded to their data, every byte of them is taken and none of what follows. -/
def Decodes (limits : Limits) (chunks : List (List UInt8)) (after : List UInt8) : Prop :=
  ∃ d, (new .chunked limits).decode (encodeChunks chunks ++ after) [] =
    .ok (d, (encodeChunks chunks).length, chunks.flatten) ∧ d.isComplete = true

/-- **Chunks are decoded exactly within the bounds.** -/
theorem decodes_iff_fits {limits : Limits} (hchunk : 2 < limits.maxChunkLineBytes)
    (hmax : 2 < limits.maxTrailerBytes) {chunks : List (List UInt8)}
    (hsum : chunks.flatten.length ≤ u64Max) (after : List UInt8) :
    Decodes limits chunks after ↔ Fits limits 0 chunks := by
  have hproper := new_proper (by decide : BodyFraming.chunked ≠ .fixed 0) limits
  have hdecoded : (new .chunked limits).decoded + chunks.flatten.length ≤ u64Max := by
    rwa [show (new .chunked limits).decoded = 0 from rfl, Nat.zero_add]
  have hruns := @run_chunks chunks (new .chunked limits) ⟨rfl, rfl⟩ rfl hchunk hmax hdecoded
    (Nat.zero_le _) after []
  refine Iff.trans ?_ hruns
  rw [Decodes]
  refine exists_congr fun d' => ?_
  rw [decode_eq_run _ hproper, nil_append]
  refine and_congr_left fun hcomplete => ?_
  constructor
  · intro h
    obtain ⟨⟨d₁, rest, out₁⟩, hrun, h⟩ := bind_eq_ok h
    obtain ⟨rfl, hlen, rfl⟩ := ok_triple h
    obtain ⟨used, hused⟩ := run_suffix hrun
    have hsame : used.length = (encodeChunks chunks).length := by
      have htotal := congrArg length hused
      simp only [length_append] at htotal hlen
      omega
    rw [hrun, (append_inj hused hsame).2]
  · intro h
    rw [h]
    show Except.ok (d', _, _) = _
    rw [length_append, Nat.add_sub_cancel]

/-- **Body decoding does not depend on read boundaries**, and chunks are read back. -/
theorem boundaries_and_chunks (framing : BodyFraming) (limits : Limits) :
    (∀ first first' : List UInt8, ∀ reads reads' : List (List UInt8),
      (first :: reads).flatten = (first' :: reads').flatten →
        (decodeReads (new framing limits) [] 0 [] (first :: reads)).Same
          (decodeReads (new framing limits) [] 0 [] (first' :: reads'))) ∧
    (2 < limits.maxChunkLineBytes → 2 < limits.maxTrailerBytes → ∀ chunks : List (List UInt8),
      chunks.flatten.length ≤ u64Max → ∀ after, Decodes limits chunks after ↔ Fits limits 0 chunks) :=
  ⟨fun first first' reads reads' h => decodeReads_same framing limits first first' reads reads' h,
    fun hchunk hmax _ hsum after => decodes_iff_fits hchunk hmax hsum after⟩

end BodyDecoder

namespace Sample

/-- Limits that admit no payload. -/
def noBody : Limits := { Limits.default with maxBodyBytes := 0 }

/-- A body over the bound is not decoded. -/
theorem chunks_not_always_decoded :
    ¬∀ limits : Limits, 2 < limits.maxChunkLineBytes → 2 < limits.maxTrailerBytes →
      ∀ chunks after, BodyDecoder.Decodes limits chunks after := by
  intro h
  have hfits : Fits noBody 0 [[0x61]] :=
    (BodyDecoder.decodes_iff_fits (by decide) (by decide) (by decide) []).1
      (h noBody (by decide) (by decide) [[0x61]] [])
  exact absurd hfits.2 (by decide)

/-- Two chunks read at once or cut in a line end, with a byte after them. -/
theorem two_chunks_cut :
    (BodyDecoder.decodeReads (BodyDecoder.new .chunked .default) [] 0 []
        [encodeChunks [[0x61], [0x62, 0x63]] ++ [0x47]]).Same
      (BodyDecoder.decodeReads (BodyDecoder.new .chunked .default) [] 0 []
        [(encodeChunks [[0x61], [0x62, 0x63]] ++ [0x47]).take 5,
          (encodeChunks [[0x61], [0x62, 0x63]] ++ [0x47]).drop 5]) ∧
    BodyDecoder.Decodes .default [[0x61], [0x62, 0x63]] [0x47] :=
  ⟨(BodyDecoder.boundaries_and_chunks .chunked .default).1 _ _ _ _ (by
      rw [flatten_cons, flatten_nil, append_nil, flatten_cons, flatten_cons, flatten_nil, append_nil,
        take_append_drop]),
    ((BodyDecoder.boundaries_and_chunks .chunked .default).2 (by decide) (by decide) _ (by decide) _).2
      ⟨by decide, by decide⟩⟩

end Sample

end HypeLlm.Http
