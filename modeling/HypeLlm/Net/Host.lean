import HypeLlm.Lib.Utf8
import HypeLlm.Net.Address

/-!
# Hosts

The host of a destination: an address written out, an IPv6 one also in brackets, or a name.  An
address is read as the standard library reads it, byte by byte.
-/

namespace HypeLlm.Net

/-! ### Addresses written out -/

/-- The digit that a byte is in a radix of at most 16. -/
def toDigit (radix : ℕ) (byte : UInt8) : Option ℕ :=
  let digit :=
    if 48 ≤ byte ∧ byte ≤ 57 then byte.toNat - 48
    else if 97 ≤ byte ∧ byte ≤ 102 then byte.toNat - 87
    else if 65 ≤ byte ∧ byte ≤ 70 then byte.toNat - 55
    else radix
  if digit < radix then some digit else none

/-- The digits at the start of the input. -/
def readDigits (radix : ℕ) (input : List UInt8) : List ℕ :=
  (input.takeWhile fun byte => (toDigit radix byte).isSome).filterMap (toDigit radix)

/-- A number of at most `maxDigits` digits below `bound`. -/
def readNumber (radix maxDigits bound : ℕ) (allowZeroPrefix : Bool) (input : List UInt8) :
    Option (ℕ × List UInt8) :=
  let digits := readDigits radix input
  let value := digits.foldl (fun value digit => value * radix + digit) 0
  if digits.length > maxDigits then none
  else if digits.length = 0 then none
  else if ¬allowZeroPrefix ∧ digits.head? = some 0 ∧ digits.length > 1 then none
  else if value < bound then some (value, input.drop digits.length)
  else none

def readGivenChar (char : UInt8) : List UInt8 → Option (List UInt8)
  | [] => none
  | byte :: rest => if byte = char then some rest else none

/-- The separator before every part but the first, and then the part. -/
def readSeparator {α : Type} (separator : UInt8) (index : ℕ)
    (read : List UInt8 → Option (α × List UInt8)) (input : List UInt8) :
    Option (α × List UInt8) :=
  if 0 < index then (readGivenChar separator input).bind read else read input

def readIpv4Addr (input : List UInt8) : Option (Ipv4Addr × List UInt8) := do
  let octet := readNumber 10 3 256 false
  let (a, input) ← readSeparator 46 0 octet input
  let (b, input) ← readSeparator 46 1 octet input
  let (c, input) ← readSeparator 46 2 octet input
  let (d, input) ← readSeparator 46 3 octet input
  return (⟨.ofNat a, .ofNat b, .ofNat c, .ofNat d⟩, input)

/-- Groups of an IPv6 address into so many places, after the groups already read; whether an IPv4
address ended them, and what is left. -/
def readGroups : ℕ → List UInt16 → List UInt8 → List UInt16 × Bool × List UInt8
  | 0, groups, input => (groups, false, input)
  | places + 1, groups, input =>
    -- an IPv4 address needs the place after this one too
    let embedded :=
      if 0 < places then readSeparator 58 groups.length readIpv4Addr input else none
    match embedded with
    | some (v4, rest) =>
      let high := v4.a.toUInt16 * 256 + v4.b.toUInt16
      let low := v4.c.toUInt16 * 256 + v4.d.toUInt16
      (groups ++ [high, low], true, rest)
    | none =>
      match readSeparator 58 groups.length (readNumber 16 4 65536 true) input with
      | some (group, rest) => readGroups places (groups ++ [UInt16.ofNat group]) rest
      | none => (groups, false, input)

def Ipv6Addr.ofGroups (groups : List UInt16) : Ipv6Addr :=
  ⟨groups.getD 0 0, groups.getD 1 0, groups.getD 2 0, groups.getD 3 0, groups.getD 4 0,
    groups.getD 5 0, groups.getD 6 0, groups.getD 7 0⟩

def readIpv6Addr (input : List UInt8) : Option (Ipv6Addr × List UInt8) := do
  let (head, headIpv4, input) := readGroups 8 [] input
  if head.length = 8 then return (.ofGroups head, input)
  if headIpv4 then none
  let input ← readGivenChar 58 input
  let input ← readGivenChar 58 input
  let (tail, _, input) := readGroups (8 - (head.length + 1)) [] input
  -- what `::` stands for
  let zeros := List.replicate (8 - tail.length - head.length) 0
  return (.ofGroups (head ++ zeros ++ tail), input)

/-- What is read has to be all of the input. -/
def parseWith {α : Type} (read : List UInt8 → Option (α × List UInt8)) (input : List UInt8) :
    Option α :=
  match read input with
  | some (value, []) => some value
  | _ => none

def parseIpv6 : List UInt8 → Option Ipv6Addr := parseWith readIpv6Addr

def parseIp : List UInt8 → Option IpAddr :=
  parseWith fun input =>
    match readIpv4Addr input with
    | some (addr, rest) => some (.v4 addr, rest)
    | none => (readIpv6Addr input).map fun (addr, rest) => (.v6 addr, rest)

/-! ### What an address is written with -/

/-- Bytes that were read, with no slash among them. -/
def NoSlash (input rest : List UInt8) : Prop := ∃ used, input = used ++ rest ∧ 47 ∉ used

theorem NoSlash.refl (input : List UInt8) : NoSlash input input := ⟨[], rfl, List.not_mem_nil⟩

theorem NoSlash.trans {a b c : List UInt8} (hab : NoSlash a b) (hbc : NoSlash b c) : NoSlash a c := by
  obtain ⟨used, rfl, hused⟩ := hab
  obtain ⟨more, rfl, hmore⟩ := hbc
  refine ⟨used ++ more, (List.append_assoc ..).symm, ?_⟩
  rw [List.mem_append]
  exact not_or.2 ⟨hused, hmore⟩

theorem toDigit_slash (radix : ℕ) : toDigit radix 47 = none := by
  have hdigit : toDigit radix 47 = if radix < radix then some radix else none := rfl
  rw [hdigit, if_neg (lt_irrefl radix)]

theorem length_readDigits (radix : ℕ) (input : List UInt8) :
    (readDigits radix input).length =
      (input.takeWhile fun byte => (toDigit radix byte).isSome).length := by
  rw [readDigits, List.length_filterMap_eq_countP, List.countP_eq_length]
  intro byte hbyte
  exact List.mem_takeWhile_imp (p := fun byte => (toDigit radix byte).isSome) hbyte

theorem readNumber_noSlash {radix maxDigits bound n : ℕ} {zero : Bool} {input rest : List UInt8}
    (h : readNumber radix maxDigits bound zero input = some (n, rest)) : NoSlash input rest := by
  have hrest : rest = input.drop (readDigits radix input).length := by
    rw [readNumber] at h
    split_ifs at h
    exact (congrArg Prod.snd (Option.some.inj h)).symm
  refine ⟨input.takeWhile fun byte => (toDigit radix byte).isSome, ?_, ?_⟩
  · have hpre := List.takeWhile_prefix (l := input) fun byte => (toDigit radix byte).isSome
    rw [hrest, length_readDigits]
    exact (List.prefix_iff_eq_append.1 hpre).symm
  · intro hslash
    have hdigit : (toDigit radix 47).isSome = true :=
      List.mem_takeWhile_imp (p := fun byte => (toDigit radix byte).isSome) hslash
    rw [toDigit_slash] at hdigit
    cases hdigit

theorem readGivenChar_noSlash {char : UInt8} (hchar : char ≠ 47) {input rest : List UInt8}
    (h : readGivenChar char input = some rest) : NoSlash input rest := by
  cases input with
  | nil => cases h
  | cons byte tail =>
    rw [readGivenChar] at h
    split at h
    · rename_i hbyte
      cases h
      exact ⟨[byte], rfl, fun hmem => hchar (hbyte ▸ (List.mem_singleton.1 hmem).symm)⟩
    · cases h

theorem readSeparator_noSlash {α : Type} {separator : UInt8} (hsep : separator ≠ 47) {index : ℕ}
    {read : List UInt8 → Option (α × List UInt8)}
    (hread : ∀ {input x rest}, read input = some (x, rest) → NoSlash input rest)
    {input rest : List UInt8} {x : α} (h : readSeparator separator index read input = some (x, rest)) :
    NoSlash input rest := by
  rw [readSeparator] at h
  split at h
  · obtain ⟨tail, hchar, hx⟩ := Option.bind_eq_some_iff.1 h
    exact (readGivenChar_noSlash hsep hchar).trans (hread hx)
  · exact hread h

theorem readIpv4Addr_noSlash {input rest : List UInt8} {addr : Ipv4Addr}
    (h : readIpv4Addr input = some (addr, rest)) : NoSlash input rest := by
  have hoctet : ∀ {index input x rest},
      readSeparator 46 index (readNumber 10 3 256 false) input = some (x, rest) → NoSlash input rest :=
    fun h => readSeparator_noSlash (by decide) readNumber_noSlash h
  rw [readIpv4Addr] at h
  obtain ⟨⟨a, first⟩, ha, h⟩ := Option.bind_eq_some_iff.1 h
  obtain ⟨⟨b, second⟩, hb, h⟩ := Option.bind_eq_some_iff.1 h
  obtain ⟨⟨c, third⟩, hc, h⟩ := Option.bind_eq_some_iff.1 h
  obtain ⟨⟨d, fourth⟩, hd, h⟩ := Option.bind_eq_some_iff.1 h
  cases h
  exact ((hoctet ha).trans (hoctet hb)).trans ((hoctet hc).trans (hoctet hd))

theorem readGroups_noSlash (places : ℕ) (groups : List UInt16) (input : List UInt8) :
    NoSlash input (readGroups places groups input).2.2 := by
  induction places generalizing groups input with
  | zero => exact .refl input
  | succ places ih =>
    rw [readGroups]
    split
    · rename_i v4 rest hembedded
      split at hembedded
      · exact readSeparator_noSlash (by decide) readIpv4Addr_noSlash hembedded
      · cases hembedded
    · split
      · rename_i group rest hgroup
        exact (readSeparator_noSlash (by decide) readNumber_noSlash hgroup).trans (ih _ _)
      · exact .refl input

theorem readIpv6Addr_noSlash {input rest : List UInt8} {addr : Ipv6Addr}
    (h : readIpv6Addr input = some (addr, rest)) : NoSlash input rest := by
  have hhead := readGroups_noSlash 8 [] input
  rw [readIpv6Addr] at h
  generalize readGroups 8 [] input = parts at h hhead
  obtain ⟨head, headIpv4, after⟩ := parts
  dsimp only at h
  split_ifs at h
  · cases h
    exact hhead
  · cases h
  · obtain ⟨colon, hcolon, h⟩ := Option.bind_eq_some_iff.1 h
    obtain ⟨colons, hcolons, h⟩ := Option.bind_eq_some_iff.1 h
    cases h
    have htwo := (readGivenChar_noSlash (by decide) hcolon).trans
      (readGivenChar_noSlash (by decide) hcolons)
    exact (hhead.trans htwo).trans (readGroups_noSlash _ _ _)

/-- **No address is written with a slash.** -/
theorem slash_not_mem_of_parseIp {input : List UInt8} {addr : IpAddr} (h : parseIp input = some addr) :
    47 ∉ input := by
  rw [parseIp, parseWith] at h
  split at h
  · rename_i value hread
    have hall : NoSlash input [] := by
      split at hread
      · rename_i hv4
        cases hread
        exact readIpv4Addr_noSlash hv4
      · obtain ⟨⟨v6, rest⟩, hv6, hpair⟩ := Option.map_eq_some_iff.1 hread
        cases hpair
        exact readIpv6Addr_noSlash hv6
    obtain ⟨used, rfl, hused⟩ := hall
    rwa [List.append_nil]
  · cases h

/-! ### Hosts -/

/-- The text between brackets. -/
def bracketed (host : List UInt8) : Option (List UInt8) :=
  if host.head? = some 91 ∧ host.tail.getLast? = some 93 then some host.tail.dropLast else none

def isHostByte (byte : UInt8) : Bool :=
  (48 ≤ byte ∧ byte ≤ 57) ∨ (65 ≤ byte ∧ byte ≤ 90) ∨ (97 ≤ byte ∧ byte ≤ 122) ∨
    byte = 45 ∨ byte = 95

def isLabel (label : List UInt8) : Bool :=
  label ≠ [] ∧ label.length ≤ 63 ∧ label.head? ≠ some 45 ∧ label.getLast? ≠ some 45 ∧
    label.all isHostByte

def isValidHost (host : List UInt8) : Bool :=
  if host = [] ∨ host.length > 253 then false
  else
    match bracketed host with
    | some inner => (parseIpv6 inner).isSome
    | none =>
      if (parseIp host).isSome then true
      else if host.head? = some 46 ∨ host.getLast? = some 46 ∨ [46, 46] <:+: host then false
      else (host.splitOn 46).all isLabel

example : parseIp (Utf8.encode "::ffff:169.254.169.254".toList) =
    some (.v6 ⟨0, 0, 0, 0, 0, 0xffff, 0xa9fe, 0xa9fe⟩) := by decide +kernel

end HypeLlm.Net
