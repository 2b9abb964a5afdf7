import HypeLlm.Lib.Decimal
import HypeLlm.Net.Host

/-!
# Addresses as they are written

The standard library writes an IPv4 address in decimal and an IPv6 address in groups of hexadecimal
digits, with `::` for the longest run of zeros, if it is of two groups or more, and an IPv4 address at
the end of a mapped one.

* `readNumber_append` — a number is read up to the first byte that is no digit;
* `longestZeros_split` — where the longest run of zeros is, there are zeros;
* `readGroups_pieces` — groups are read back;
* **`parseIp_display`** — an address that was written is read back.
-/

namespace HypeLlm.Net

open List

/-! ### Writing -/

def Ipv4Addr.display (addr : Ipv4Addr) : List Char :=
  Decimal.text 3 addr.a.toNat ++ '.' :: (Decimal.text 3 addr.b.toNat ++ '.' ::
    (Decimal.text 3 addr.c.toNat ++ '.' :: Decimal.text 3 addr.d.toNat))

/-- The hexadecimal digits of a number below 65536, without leading zeros. -/
def hexDigits (n : ℕ) : List ℕ :=
  if n < 16 then [n]
  else if n < 256 then [n / 16, n % 16]
  else if n < 4096 then [n / 256, n / 16 % 16, n % 16]
  else [n / 4096, n / 256 % 16, n / 16 % 16, n % 16]

def lowerHex (d : ℕ) : Char := Char.ofNat (if d < 10 then 48 + d else 87 + d)

def hexText (group : UInt16) : List Char := (hexDigits group.toNat).map lowerHex

/-- Some groups, one after the other. -/
structure Span where
  start : ℕ
  len : ℕ
  deriving Repr, DecidableEq

/-- The longest run of zeros, the first of several, from the group at `i` on. -/
def zerosLoop : List UInt16 → ℕ → Span → Span → Span
  | [], _, _, longest => longest
  | segment :: rest, i, current, longest =>
    if segment = 0 then
      let current := if current.len = 0 then ⟨i, 1⟩ else { current with len := current.len + 1 }
      zerosLoop rest (i + 1) current (if longest.len < current.len then current else longest)
    else zerosLoop rest (i + 1) ⟨0, 0⟩ longest

def longestZeros (segments : List UInt16) : Span := zerosLoop segments 0 ⟨0, 0⟩ ⟨0, 0⟩

/-- Groups with colons between them. -/
def fmtSubslice (chunk : List UInt16) : List Char := [':'].intercalate (chunk.map hexText)

namespace Ipv6Addr

def segments (addr : Ipv6Addr) : List UInt16 :=
  [addr.s0, addr.s1, addr.s2, addr.s3, addr.s4, addr.s5, addr.s6, addr.s7]

def toIpv4Mapped (addr : Ipv6Addr) : Option Ipv4Addr :=
  if addr.s0 = 0 ∧ addr.s1 = 0 ∧ addr.s2 = 0 ∧ addr.s3 = 0 ∧ addr.s4 = 0 ∧ addr.s5 = 0xffff then
    some (ofSegments addr.s6 addr.s7)
  else none

def display (addr : Ipv6Addr) : List Char :=
  match addr.toIpv4Mapped with
  | some ipv4 => "::ffff:".toList ++ ipv4.display
  | none =>
    let zeroes := longestZeros addr.segments
    if 1 < zeroes.len then
      fmtSubslice (addr.segments.take zeroes.start) ++ "::".toList ++
        fmtSubslice (addr.segments.drop (zeroes.start + zeroes.len))
    else fmtSubslice addr.segments

end Ipv6Addr

def IpAddr.display : IpAddr → List Char
  | .v4 addr => addr.display
  | .v6 addr => addr.display

example : (IpAddr.v6 ⟨0xfd00, 0, 0, 1, 0, 0, 0, 0xab⟩).display = "fd00:0:0:1::ab".toList := by decide

/-! ### Numbers are read back -/

/-- The rest does not start with a digit. -/
def Stops (radix : ℕ) (rest : List UInt8) : Prop := ∀ byte ∈ rest.head?, toDigit radix byte = none

theorem stops_nil (radix : ℕ) : Stops radix [] := fun _ h => by cases h

theorem readDigits_append {radix : ℕ} {word rest : List UInt8}
    (hword : ∀ byte ∈ word, (toDigit radix byte).isSome = true) (hrest : Stops radix rest) :
    readDigits radix (word ++ rest) = word.filterMap (toDigit radix) := by
  have hstop : rest.takeWhile (fun byte => (toDigit radix byte).isSome) = [] := by
    cases rest with
    | nil => rfl
    | cons byte rest =>
      have hbyte : toDigit radix byte = none := hrest byte rfl
      rw [takeWhile_cons_of_neg]
      rw [hbyte]
      decide
  rw [readDigits, takeWhile_append_of_pos hword, hstop, append_nil]

/-- **A number is read up to the first byte that is no digit.** -/
theorem readNumber_append {radix maxDigits bound : ℕ} {zero : Bool} {word rest : List UInt8} {n : ℕ}
    (hword : ∀ byte ∈ word, (toDigit radix byte).isSome = true) (hrest : Stops radix rest)
    (h : readNumber radix maxDigits bound zero word = some (n, [])) :
    readNumber radix maxDigits bound zero (word ++ rest) = some (n, rest) := by
  have hdigits : readDigits radix word = word.filterMap (toDigit radix) := by
    have hall := readDigits_append hword (stops_nil radix)
    rwa [append_nil] at hall
  have hlen : (word.filterMap (toDigit radix)).length = word.length := by
    rw [length_filterMap_eq_countP, countP_eq_length]
    exact hword
  rw [readNumber, hdigits] at h
  rw [readNumber, readDigits_append hword hrest]
  split_ifs at h ⊢ with h₁ h₂ h₃ h₄
  have hvalue := congrArg Prod.fst (Option.some.inj h)
  rw [hlen, drop_left]
  exact congrArg (fun n => some (n, rest)) hvalue

/-- An octet is read back. -/
theorem readNumber_octet (octet : UInt8) {rest : List UInt8} (hrest : Stops 10 rest) :
    readNumber 10 3 256 false (Utf8.encode (Decimal.text 3 octet.toNat) ++ rest) =
      some (octet.toNat, rest) := by
  have hall : ∀ n < 256,
      (Utf8.encode (Decimal.text 3 n)).all (fun byte => (toDigit 10 byte).isSome) = true ∧
        readNumber 10 3 256 false (Utf8.encode (Decimal.text 3 n)) = some (n, []) := by
    decide +kernel
  obtain ⟨hword, hread⟩ := hall octet.toNat octet.toNat_lt
  exact readNumber_append (all_eq_true.1 hword) hrest hread

theorem lowerHex_digit : ∀ d < 16, Utf8.encode [lowerHex d] = [UInt8.ofNat (lowerHex d).toNat] ∧
    toDigit 16 (UInt8.ofNat (lowerHex d).toNat) = some d := by
  decide

theorem lt_of_mem_hexDigits {n d : ℕ} (h : n < 65536) (hd : d ∈ hexDigits n) : d < 16 := by
  unfold hexDigits at hd
  split_ifs at hd <;> simp only [mem_cons, not_mem_nil, or_false] at hd <;> omega

theorem foldl_hexDigits {n : ℕ} (h : n < 65536) :
    (hexDigits n).foldl (fun value digit => value * 16 + digit) 0 = n := by
  unfold hexDigits
  split_ifs <;> simp only [foldl_cons, foldl_nil] <;> omega

theorem length_hexDigits (n : ℕ) : 1 ≤ (hexDigits n).length ∧ (hexDigits n).length ≤ 4 := by
  unfold hexDigits
  split_ifs <;> simp

theorem encode_lowerHex {ds : List ℕ} (h : ∀ d ∈ ds, d < 16) :
    Utf8.encode (ds.map lowerHex) = ds.map fun d => UInt8.ofNat (lowerHex d).toNat := by
  induction ds with
  | nil => rfl
  | cons d ds ih =>
    have hone := (lowerHex_digit d (h d mem_cons_self)).1
    have hsplit : (d :: ds).map lowerHex = [lowerHex d] ++ ds.map lowerHex := rfl
    rw [hsplit, Utf8.encode_append, hone, ih fun e he => h e (mem_cons_of_mem d he), map_cons]
    rfl

/-- A group is read back. -/
theorem readNumber_group (group : UInt16) {rest : List UInt8} (hrest : Stops 16 rest) :
    readNumber 16 4 65536 true (Utf8.encode (hexText group) ++ rest) = some (group.toNat, rest) := by
  have hlt : group.toNat < 65536 := group.toNat_lt
  have hsmall : ∀ d ∈ hexDigits group.toNat, d < 16 := fun d hd => lt_of_mem_hexDigits hlt hd
  have hbytes : Utf8.encode (hexText group) =
      (hexDigits group.toNat).map fun d => UInt8.ofNat (lowerHex d).toNat := encode_lowerHex hsmall
  have hdigit : ∀ byte ∈ Utf8.encode (hexText group), (toDigit 16 byte).isSome = true := by
    intro byte hbyte
    rw [hbytes] at hbyte
    obtain ⟨d, hd, rfl⟩ := mem_map.1 hbyte
    rw [(lowerHex_digit d (hsmall d hd)).2]
    rfl
  refine readNumber_append hdigit hrest ?_
  have hdigits : readDigits 16 (Utf8.encode (hexText group)) = hexDigits group.toNat := by
    have hall := readDigits_append hdigit (stops_nil 16)
    rw [append_nil] at hall
    rw [hall, hbytes, filterMap_map]
    have hsome : ∀ d ∈ hexDigits group.toNat,
        (toDigit 16 ∘ fun d => UInt8.ofNat (lowerHex d).toNat) d = some d :=
      fun d hd => (lowerHex_digit d (hsmall d hd)).2
    rw [filterMap_congr hsome]
    exact filterMap_some
  obtain ⟨hpos, hshort⟩ := length_hexDigits group.toNat
  have hlen : (Utf8.encode (hexText group)).length = (hexDigits group.toNat).length := by
    rw [hbytes, length_map]
  rw [readNumber, hdigits, foldl_hexDigits hlt]
  rw [if_neg (Nat.not_lt.2 hshort), if_neg (Nat.pos_iff_ne_zero.1 hpos), if_neg (by simp), if_pos hlt, ← hlen,
    drop_length]

/-! ### An IPv4 address is read back -/

theorem readSeparator_first {α : Type} (separator : UInt8) (read : List UInt8 → Option (α × List UInt8))
    (input : List UInt8) : readSeparator separator 0 read input = read input := if_neg (lt_irrefl 0)

theorem readSeparator_cons {α : Type} (separator : UInt8) {index : ℕ} (h : 0 < index)
    (read : List UInt8 → Option (α × List UInt8)) (input : List UInt8) :
    readSeparator separator index read (separator :: input) = read input := by
  rw [readSeparator, if_pos h, readGivenChar, if_pos rfl]
  rfl

theorem encode_display_v4 (addr : Ipv4Addr) : Utf8.encode addr.display =
    Utf8.encode (Decimal.text 3 addr.a.toNat) ++ 46 :: (Utf8.encode (Decimal.text 3 addr.b.toNat) ++ 46 ::
      (Utf8.encode (Decimal.text 3 addr.c.toNat) ++ 46 :: Utf8.encode (Decimal.text 3 addr.d.toNat))) := by
  have hdot : Utf8.encodeChar '.' = [46] := by decide
  simp [Ipv4Addr.display, hdot]

theorem readIpv4Addr_display (addr : Ipv4Addr) : readIpv4Addr (Utf8.encode addr.display) = some (addr, []) := by
  have hdot : ∀ rest, Stops 10 (46 :: rest) := fun rest byte hbyte => by
    obtain rfl := Option.some.inj hbyte
    decide
  have hlast : readNumber 10 3 256 false (Utf8.encode (Decimal.text 3 addr.d.toNat)) = some (addr.d.toNat, []) := by
    have hoctet := readNumber_octet addr.d (stops_nil 10)
    rwa [append_nil] at hoctet
  rw [readIpv4Addr, encode_display_v4, readSeparator_first, readNumber_octet addr.a (hdot _)]
  simp only [Option.bind_eq_bind, Option.bind_some]
  rw [readSeparator_cons 46 (by decide), readNumber_octet addr.b (hdot _)]
  simp only [Option.bind_some]
  rw [readSeparator_cons 46 (by decide), readNumber_octet addr.c (hdot _)]
  simp only [Option.bind_some]
  rw [readSeparator_cons 46 (by decide), hlast]
  show some ((⟨.ofNat addr.a.toNat, .ofNat addr.b.toNat, .ofNat addr.c.toNat, .ofNat addr.d.toNat⟩ : Ipv4Addr),
    ([] : List UInt8)) = _
  simp only [UInt8.ofNat_toNat]

/-! ### What is no IPv4 address -/

theorem mem_of_readNumber {radix maxDigits bound n : ℕ} {zero : Bool} {input rest : List UInt8}
    (h : readNumber radix maxDigits bound zero input = some (n, rest)) {byte : UInt8} (hbyte : byte ∈ rest) :
    byte ∈ input := by
  obtain ⟨used, rfl, -⟩ := readNumber_noSlash h
  exact mem_append_right used hbyte

/-- An IPv4 address has a dot. -/
theorem readIpv4Addr_eq_none {input : List UInt8} (h : 46 ∉ input) : readIpv4Addr input = none := by
  cases hread : readIpv4Addr input with
  | none => rfl
  | some pair =>
    obtain ⟨⟨a, first⟩, ha, hrest⟩ := Option.bind_eq_some_iff.1 hread
    obtain ⟨⟨b, second⟩, hb, -⟩ := Option.bind_eq_some_iff.1 hrest
    rw [readSeparator_first] at ha
    have hdot : 46 ∉ first := fun hmem => h (mem_of_readNumber ha hmem)
    rw [readSeparator, if_pos (by decide)] at hb
    obtain ⟨after, hafter, -⟩ := Option.bind_eq_some_iff.1 hb
    cases first with
    | nil => cases hafter
    | cons byte rest =>
      rw [readGivenChar] at hafter
      split at hafter
      · rename_i hbyte
        exact absurd (hbyte ▸ mem_cons_self) hdot
      · cases hafter

/-! ### Groups are read back -/

/-- Groups as bytes, the first after a colon unless it is the first of all. -/
def pieces : ℕ → List UInt16 → List UInt8
  | _, [] => []
  | index, group :: rest =>
    (if 0 < index then [58] else []) ++ (Utf8.encode (hexText group) ++ pieces (index + 1) rest)

theorem pieces_later {index other : ℕ} (h : 0 < index) (hother : 0 < other) (chunk : List UInt16) :
    pieces index chunk = pieces other chunk := by
  induction chunk generalizing index other with
  | nil => rfl
  | cons group rest ih => rw [pieces, pieces, if_pos h, if_pos hother, ih index.succ_pos other.succ_pos]

theorem encode_fmtSubslice (chunk : List UInt16) : Utf8.encode (fmtSubslice chunk) = pieces 0 chunk := by
  have hcolon : Utf8.encodeChar ':' = [58] := by decide
  have hlater : ∀ (chunk : List UInt16) (group : UInt16),
      Utf8.encode (fmtSubslice (group :: chunk)) = Utf8.encode (hexText group) ++ pieces 1 chunk := by
    intro chunk
    induction chunk with
    | nil =>
      intro group
      simp [fmtSubslice, intercalate, pieces]
    | cons next rest ih =>
      intro group
      have hsplit : fmtSubslice (group :: next :: rest) = hexText group ++ ':' :: fmtSubslice (next :: rest) := by
        simp [fmtSubslice, intercalate]
      rw [hsplit, Utf8.encode_append, Utf8.encode_cons, hcolon, ih next, pieces, if_pos Nat.one_pos,
        pieces_later (Nat.succ_pos 1) Nat.one_pos]
  cases chunk with
  | nil => rfl
  | cons group rest => rw [hlater rest group, pieces, if_neg (by decide), nil_append]

/-- What groups are written with. -/
def groupByte (byte : UInt8) : Bool := (toDigit 16 byte).isSome || byte = 58

theorem groupByte_of_mem_pieces {index : ℕ} {chunk : List UInt16} {byte : UInt8} (h : byte ∈ pieces index chunk) :
    groupByte byte = true := by
  induction chunk generalizing index with
  | nil => cases h
  | cons group rest ih =>
    rw [pieces, mem_append, mem_append] at h
    obtain h | h | h := h
    · split at h
      · rw [mem_singleton.1 h]
        decide
      · cases h
    · have hsmall : ∀ d ∈ hexDigits group.toNat, d < 16 := fun d hd => lt_of_mem_hexDigits group.toNat_lt hd
      rw [hexText, encode_lowerHex hsmall] at h
      obtain ⟨d, hd, rfl⟩ := mem_map.1 h
      rw [groupByte, (lowerHex_digit d (hsmall d hd)).2]
      rfl
    · exact ih h

theorem not_groupByte_dot : groupByte 46 = false := by decide

/-- What may follow groups: nothing, or two colons. -/
def Follows (rest : List UInt8) : Prop := rest = [] ∨ ∃ more, rest = 58 :: 58 :: more

theorem stops_colon (rest : List UInt8) : Stops 16 (58 :: rest) := fun byte hbyte => by
  obtain rfl := Option.some.inj hbyte
  decide

theorem readNumber_stops {radix maxDigits bound : ℕ} {zero : Bool} {rest : List UInt8} (h : Stops radix rest) :
    readNumber radix maxDigits bound zero rest = none := by
  have hnone : readDigits radix ([] ++ rest) = [] := readDigits_append (fun _ hmem => absurd hmem not_mem_nil) h
  rw [nil_append] at hnone
  rw [readNumber, hnone]
  simp

/-- No group is read where there is none. -/
theorem readGroup_follows {index : ℕ} {rest : List UInt8} (h : Follows rest) :
    readSeparator 58 index (readNumber 16 4 65536 true) rest = none := by
  obtain rfl | ⟨more, rfl⟩ := h
  · unfold readSeparator
    split
    · rfl
    · exact readNumber_stops (stops_nil 16)
  · unfold readSeparator
    split
    · rw [readGivenChar, if_pos rfl, Option.bind_some]
      exact readNumber_stops (stops_colon more)
    · exact readNumber_stops (stops_colon _)

theorem stops_pieces {index : ℕ} (h : 0 < index) (chunk : List UInt16) {rest : List UInt8} (hrest : Follows rest) :
    Stops 16 (pieces index chunk ++ rest) := by
  cases chunk with
  | nil =>
    obtain rfl | ⟨more, rfl⟩ := hrest
    · exact stops_nil 16
    · exact stops_colon _
  | cons group chunk =>
    rw [pieces, if_pos h]
    exact stops_colon _

/-- No IPv4 address is read where there is no dot. -/
theorem embedded_eq_none {index : ℕ} {input : List UInt8} (h : 46 ∉ input) :
    readSeparator 58 index readIpv4Addr input = none := by
  unfold readSeparator
  split
  · cases input with
    | nil => rfl
    | cons byte rest =>
      rw [readGivenChar]
      split
      · exact readIpv4Addr_eq_none fun hmem => h (mem_cons_of_mem byte hmem)
      · rfl
  · exact readIpv4Addr_eq_none h

/-- **Groups are read back**, up to their end or two colons. -/
theorem readGroups_pieces {places : ℕ} {groups chunk : List UInt16} {rest : List UInt8}
    (hfit : chunk.length ≤ places) (hrest : Follows rest) (hdot : 46 ∉ rest) :
    readGroups places groups (pieces groups.length chunk ++ rest) = (groups ++ chunk, false, rest) := by
  induction chunk generalizing places groups with
  | nil =>
    rw [append_nil]
    cases places with
    | zero => rfl
    | succ places =>
      have hnone : (if 0 < places then readSeparator 58 groups.length readIpv4Addr (pieces groups.length [] ++ rest)
          else none) = none := by
        split
        · exact embedded_eq_none hdot
        · rfl
      have hgroup : readSeparator 58 groups.length (readNumber 16 4 65536 true) (pieces groups.length [] ++ rest) =
          none := readGroup_follows hrest
      rw [readGroups, hnone, hgroup]
      rfl
  | cons group chunk ih =>
    obtain ⟨places, rfl⟩ : ∃ p, places = p + 1 := Nat.exists_eq_add_of_le' (Nat.le_trans (by simp) hfit)
    have hplain : 46 ∉ pieces groups.length (group :: chunk) ++ rest := by
      rw [mem_append]
      rintro (hmem | hmem)
      · have hbyte := groupByte_of_mem_pieces hmem
        rw [not_groupByte_dot] at hbyte
        cases hbyte
      · exact hdot hmem
    have hnone : (if 0 < places then
        readSeparator 58 groups.length readIpv4Addr (pieces groups.length (group :: chunk) ++ rest) else none) =
          none := by
      split
      · exact embedded_eq_none hplain
      · rfl
    have hgroup : readSeparator 58 groups.length (readNumber 16 4 65536 true)
        (pieces groups.length (group :: chunk) ++ rest) =
          some (group.toNat, pieces (groups.length + 1) chunk ++ rest) := by
      have hread := readNumber_group group (stops_pieces groups.length.succ_pos chunk hrest)
      rw [pieces, append_assoc, append_assoc]
      by_cases hfirst : 0 < groups.length
      · rw [if_pos hfirst, singleton_append, readSeparator_cons 58 hfirst]
        exact hread
      · rw [if_neg hfirst, nil_append, Nat.eq_zero_of_not_pos hfirst, readSeparator_first]
        rwa [Nat.eq_zero_of_not_pos hfirst] at hread
    have hstep := @ih places (groups ++ [group]) (by simpa using hfit)
    rw [length_append, length_singleton] at hstep
    rw [readGroups, hnone, hgroup]
    show readGroups places (groups ++ [UInt16.ofNat group.toNat]) _ = _
    rw [UInt16.ofNat_toNat, hstep, append_assoc, singleton_append]

/-! ### Zeros -/

/-- There are zeros in a span. -/
def ZerosAt (segments : List UInt16) (span : Span) : Prop :=
  span.start + span.len ≤ segments.length ∧
    ∀ i, span.start ≤ i → i < span.start + span.len → segments[i]? = some 0

theorem zerosAt_none (segments : List UInt16) : ZerosAt segments ⟨0, 0⟩ :=
  ⟨Nat.zero_le _, fun i _ hlt => absurd hlt (Nat.not_lt_zero i)⟩

theorem zerosLoop_zeros {segments before rest : List UInt16} {current longest : Span}
    (hsplit : segments = before ++ rest) (hcurrent : ZerosAt segments current)
    (hend : 0 < current.len → current.start + current.len = before.length) (hlongest : ZerosAt segments longest) :
    ZerosAt segments (zerosLoop rest before.length current longest) := by
  induction rest generalizing before current longest with
  | nil => exact hlongest
  | cons segment rest ih =>
    have hmove : segments = (before ++ [segment]) ++ rest := by rw [hsplit, append_assoc, singleton_append]
    have hhere : segments[before.length]? = some segment := by rw [hsplit, List.getElem?_append_right le_rfl]; simp
    have hlen : before.length + 1 ≤ segments.length := by rw [hsplit]; simp
    have hnext : (before ++ [segment]).length = before.length + 1 := by rw [length_append, length_singleton]
    rw [zerosLoop]
    split
    · rename_i hzero
      set current' : Span := if current.len = 0 then ⟨before.length, 1⟩ else { current with len := current.len + 1 }
        with hdef
      have hcurrent' : ZerosAt segments current' ∧ current'.start + current'.len = before.length + 1 := by
        rw [hdef]
        split
        · refine ⟨⟨hlen, fun i hi hlt => ?_⟩, rfl⟩
          obtain rfl : i = before.length := Nat.le_antisymm (Nat.le_of_lt_succ hlt) hi
          rw [hhere, hzero]
        · rename_i hpos
          have hstop := hend (Nat.pos_of_ne_zero hpos)
          refine ⟨⟨?_, fun i hi hlt => ?_⟩, ?_⟩
          · show current.start + (current.len + 1) ≤ _
            omega
          · have hlt' : i < current.start + (current.len + 1) := hlt
            by_cases hi' : i = before.length
            · rw [hi', hhere, hzero]
            · exact hcurrent.2 i hi (by omega)
          · show current.start + (current.len + 1) = _
            omega
      rw [← hnext]
      refine ih hmove hcurrent'.1 (fun _ => ?_) ?_
      · rw [hnext]
        exact hcurrent'.2
      · split
        · exact hcurrent'.1
        · exact hlongest
    · rw [← hnext]
      exact ih hmove (zerosAt_none segments) (fun hpos => absurd hpos (lt_irrefl 0)) hlongest

/-- **Where the longest run of zeros is, there are zeros.** -/
theorem longestZeros_split (segments : List UInt16) :
    (longestZeros segments).start + (longestZeros segments).len ≤ segments.length ∧
      segments.take (longestZeros segments).start ++ replicate (longestZeros segments).len 0 ++
        segments.drop ((longestZeros segments).start + (longestZeros segments).len) = segments := by
  have hstart : segments = [] ++ segments := rfl
  obtain ⟨hlen, hzeros⟩ : ZerosAt segments (longestZeros segments) :=
    zerosLoop_zeros hstart (zerosAt_none segments) (fun hpos => absurd hpos (lt_irrefl 0)) (zerosAt_none segments)
  generalize longestZeros segments = span at hlen hzeros
  refine ⟨hlen, ?_⟩
  have hmiddle : replicate span.len 0 = (segments.drop span.start).take span.len := by
    refine (eq_replicate_iff.2 ⟨?_, fun b hb => ?_⟩).symm
    · rw [length_take, length_drop]
      omega
    · obtain ⟨i, hi⟩ := mem_iff_getElem?.1 hb
      rw [getElem?_take] at hi
      split at hi
      · rw [getElem?_drop, hzeros _ (by omega) (by omega)] at hi
        exact (Option.some.inj hi).symm
      · cases hi
  rw [hmiddle, append_assoc, ← drop_drop, take_append_drop, take_append_drop]

/-! ### Addresses are read back -/

/-- The octets of a segment make it up. -/
theorem ofBeBytes (s : UInt16) : (toBeBytes s).1.toUInt16 * 256 + (toBeBytes s).2.toUInt16 = s := by
  have hlt : s.toNat < 65536 := s.toNat_lt
  apply UInt16.toNat_inj.1
  simp only [toBeBytes, UInt16.toNat_add, UInt16.toNat_mul, UInt8.toNat_toUInt16, UInt16.toNat_toUInt8,
    UInt16.toNat_shiftRight, Nat.shiftRight_eq_div_pow]
  have h256 : (256 : UInt16).toNat = 256 := rfl
  have h8 : (8 : UInt16).toNat % 16 = 8 := rfl
  rw [h256, h8]
  omega

theorem dot_not_mem_pieces (index : ℕ) (chunk : List UInt16) : 46 ∉ pieces index chunk := fun hmem => by
  have hbyte := groupByte_of_mem_pieces hmem
  rw [not_groupByte_dot] at hbyte
  cases hbyte

theorem readIpv4Addr_stops {input : List UInt8} (h : Stops 10 input) : readIpv4Addr input = none := by
  rw [readIpv4Addr, readSeparator_first, readNumber_stops h]
  rfl

/-- No group comes before two colons. -/
theorem readGroups_colon (places : ℕ) (rest : List UInt8) :
    readGroups (places + 1) [] (58 :: rest) = ([], false, 58 :: rest) := by
  have hdecimal : Stops 10 (58 :: rest) := fun byte hbyte => by
    obtain rfl := Option.some.inj hbyte
    decide
  have hnone : (if 0 < places then readSeparator 58 ([] : List UInt16).length readIpv4Addr (58 :: rest) else none) =
      none := by
    split
    · exact readIpv4Addr_stops hdecimal
    · rfl
  have hgroup : readSeparator 58 ([] : List UInt16).length (readNumber 16 4 65536 true) (58 :: rest) = none := by
    rw [length_nil, readSeparator_first]
    exact readNumber_stops (stops_colon rest)
  rw [readGroups, hnone, hgroup]

/-- What is read after two colons. -/
theorem readIpv6Addr_colons {input rest left : List UInt8} {head tail : List UInt16} {tailIpv4 : Bool}
    (hhead : readGroups 8 [] input = (head, false, 58 :: 58 :: rest)) (hlen : head.length < 8)
    (htail : readGroups (8 - (head.length + 1)) [] rest = (tail, tailIpv4, left)) :
    readIpv6Addr input =
      some (.ofGroups (head ++ replicate (8 - tail.length - head.length) 0 ++ tail), left) := by
  rw [readIpv6Addr, hhead]
  show (if head.length = 8 then _ else _) = _
  rw [if_neg hlen.ne]
  have hcolon : ∀ input, readGivenChar 58 (58 :: input) = some input :=
    fun _ => by rw [readGivenChar, if_pos rfl]
  simp only [hcolon, Option.bind_eq_bind, Option.bind_some, htail]
  rfl

theorem encode_colons : Utf8.encode "::".toList = [58, 58] := by decide

/-- A mapped address is read back. -/
theorem readIpv6Addr_mapped (ipv4 : Ipv4Addr) :
    readIpv6Addr (Utf8.encode ("::ffff:".toList ++ ipv4.display)) =
      some (.ofGroups [0, 0, 0, 0, 0, 0xffff, ipv4.a.toUInt16 * 256 + ipv4.b.toUInt16,
        ipv4.c.toUInt16 * 256 + ipv4.d.toUInt16], []) := by
  have hstart : Utf8.encode "::ffff:".toList = 58 :: 58 :: (Utf8.encode (hexText 0xffff) ++ [58]) := by decide
  have hword : Utf8.encode (hexText 0xffff) = [102, 102, 102, 102] := by decide
  have htail : readGroups 7 [] (Utf8.encode (hexText 0xffff) ++ 58 :: Utf8.encode ipv4.display) =
      ([0xffff, ipv4.a.toUInt16 * 256 + ipv4.b.toUInt16, ipv4.c.toUInt16 * 256 + ipv4.d.toUInt16], true, []) := by
    have hnone : (if 0 < 6 then readSeparator 58 ([] : List UInt16).length readIpv4Addr
        (Utf8.encode (hexText 0xffff) ++ 58 :: Utf8.encode ipv4.display) else none) = none := by
      rw [if_pos (by decide), hword]
      refine readIpv4Addr_stops fun byte hbyte => ?_
      obtain rfl := Option.some.inj hbyte
      decide
    have hgroup : readSeparator 58 ([] : List UInt16).length (readNumber 16 4 65536 true)
        (Utf8.encode (hexText 0xffff) ++ 58 :: Utf8.encode ipv4.display) =
          some ((0xffff : UInt16).toNat, 58 :: Utf8.encode ipv4.display) := readNumber_group 0xffff (stops_colon _)
    have hlast : (if 0 < 5 then readSeparator 58 ([] ++ [UInt16.ofNat (0xffff : UInt16).toNat]).length readIpv4Addr
        (58 :: Utf8.encode ipv4.display) else none) = some (ipv4, []) := by
      rw [if_pos (by decide)]
      exact (readSeparator_cons 58 (by decide) _ _).trans (readIpv4Addr_display ipv4)
    rw [readGroups, hnone, hgroup]
    show readGroups 6 ([] ++ [UInt16.ofNat (0xffff : UInt16).toNat]) _ = _
    rw [readGroups, hlast]
    rfl
  have hinput : Utf8.encode ("::ffff:".toList ++ ipv4.display) =
      58 :: 58 :: (Utf8.encode (hexText 0xffff) ++ 58 :: Utf8.encode ipv4.display) := by
    rw [Utf8.encode_append, hstart]
    simp
  rw [hinput]
  exact readIpv6Addr_colons (readGroups_colon 7 _) (by decide) htail

theorem readIpv6Addr_display (addr : Ipv6Addr) :
    readIpv6Addr (Utf8.encode addr.display) = some (addr, []) := by
  have hrun := longestZeros_split addr.segments
  rw [Ipv6Addr.display]
  generalize longestZeros addr.segments = zeroes at hrun
  obtain ⟨hlen, hsplit⟩ := hrun
  have height : addr.segments.length = 8 := rfl
  split
  · rename_i ipv4 hmapped
    rw [Ipv6Addr.toIpv4Mapped] at hmapped
    split at hmapped
    · rename_i hzeros
      obtain rfl := Option.some.inj hmapped
      obtain ⟨s0, s1, s2, s3, s4, s5, s6, s7⟩ := addr
      obtain ⟨rfl, rfl, rfl, rfl, rfl, rfl⟩ := hzeros
      rw [readIpv6Addr_mapped, ofSegments, ofBeBytes, ofBeBytes]
      rfl
    · cases hmapped
  · dsimp only
    split
    · rename_i hlong
      have hheadlen : (addr.segments.take zeroes.start).length = zeroes.start := by
        rw [length_take]
        omega
      have htaillen : (addr.segments.drop (zeroes.start + zeroes.len)).length = 8 - (zeroes.start + zeroes.len) := by
        rw [length_drop, height]
      have hfill : 8 - (8 - (zeroes.start + zeroes.len)) - zeroes.start = zeroes.len := by omega
      generalize addr.segments.take zeroes.start = head at hsplit hheadlen
      generalize addr.segments.drop (zeroes.start + zeroes.len) = tail at hsplit htaillen
      have hfirst : readGroups 8 [] (pieces 0 head ++ 58 :: 58 :: pieces 0 tail) =
          (head, false, 58 :: 58 :: pieces 0 tail) := by
        have hdot : 46 ∉ (58 :: 58 :: pieces 0 tail : List UInt8) := by
          simpa using dot_not_mem_pieces 0 tail
        exact readGroups_pieces (by omega) (.inr ⟨_, rfl⟩) hdot
      have hsecond : readGroups (8 - (head.length + 1)) [] (pieces 0 tail) = (tail, false, []) := by
        have hfit : tail.length ≤ 8 - (head.length + 1) := by omega
        have hread : readGroups (8 - (head.length + 1)) [] (pieces 0 tail ++ []) = ([] ++ tail, false, []) :=
          readGroups_pieces hfit (.inl rfl) not_mem_nil
        rwa [append_nil] at hread
      have hinput : Utf8.encode (fmtSubslice head ++ "::".toList ++ fmtSubslice tail) =
          pieces 0 head ++ 58 :: 58 :: pieces 0 tail := by
        rw [Utf8.encode_append, Utf8.encode_append, encode_colons, encode_fmtSubslice, encode_fmtSubslice]
        simp
      rw [hinput, readIpv6Addr_colons hfirst (by omega) hsecond, hheadlen, htaillen, hfill, hsplit]
      rfl
    · have hall : readGroups 8 [] (pieces 0 addr.segments) = (addr.segments, false, []) := by
        have hread : readGroups 8 [] (pieces 0 addr.segments ++ []) = ([] ++ addr.segments, false, []) :=
          readGroups_pieces height.le (.inl rfl) not_mem_nil
        rwa [append_nil] at hread
      rw [encode_fmtSubslice, readIpv6Addr, hall]
      exact if_pos height

/-- No IPv6 address is written as an IPv4 one. -/
theorem readIpv4Addr_display_v6 (addr : Ipv6Addr) : readIpv4Addr (Utf8.encode addr.display) = none := by
  rw [Ipv6Addr.display]
  split
  · rename_i ipv4 _
    have hstart : Utf8.encode "::ffff:".toList = 58 :: (58 :: (Utf8.encode (hexText 0xffff) ++ [58])) := by decide
    rw [Utf8.encode_append, hstart]
    refine readIpv4Addr_stops fun byte hbyte => ?_
    obtain rfl := Option.some.inj hbyte
    decide
  · dsimp only
    split
    · refine readIpv4Addr_eq_none ?_
      rw [Utf8.encode_append, Utf8.encode_append, encode_colons, encode_fmtSubslice, encode_fmtSubslice]
      simpa using ⟨dot_not_mem_pieces 0 _, dot_not_mem_pieces 0 _⟩
    · refine readIpv4Addr_eq_none ?_
      rw [encode_fmtSubslice]
      exact dot_not_mem_pieces 0 _

/-- **An address that was written is read back.** -/
theorem parseIp_display (addr : IpAddr) : parseIp (Utf8.encode addr.display) = some addr := by
  cases addr with
  | v4 addr =>
    rw [IpAddr.display, parseIp, parseWith, readIpv4Addr_display]
  | v6 addr =>
    rw [IpAddr.display, parseIp, parseWith, readIpv4Addr_display_v6, readIpv6Addr_display]
    rfl

end HypeLlm.Net
