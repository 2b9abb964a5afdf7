import HypeLlm.Http.Connection
import HypeLlm.Http.Client

/-!
# Heads under more bytes

Both parsers of heads look for the first empty line.  Before it has arrived they check the size, and
the one for requests looks for line ends that are not in pairs; once it has they parse what is before
it.  What the early check refuses the later one refuses too, so no read boundary lets a refused
message through.

* `Framed.stable` — any parser of this shape whose early check agrees with the later one;
* **`heads_stable`** — for requests and for responses: a head stays the same under more bytes, its
  parts wait for the rest, and a refusal stays a refusal.
-/

namespace HypeLlm.Http

open HypeLlm.Results List

/-- What more bytes and fewer bytes do to the answers of a parser of heads. -/
structure Stable {α : Type} (parse : List UInt8 → Except HttpErrorKind (ParseStatus α))
    (headLen : α → ℕ) : Prop where
  within : ∀ buf head, parse buf = .ok (.complete head) → headLen head ≤ buf.length
  extended : ∀ buf head, parse buf = .ok (.complete head) →
    ∀ rest, parse (buf ++ rest) = .ok (.complete head)
  waits : ∀ buf head, parse buf = .ok (.complete head) →
    ∀ part, part <+: buf.take (headLen head) → part ≠ buf.take (headLen head) →
      parse part = .ok .incomplete
  refused : ∀ buf e, parse buf = .error e → ∀ rest, ∃ e', parse (buf ++ rest) = .error e'

/-! ### Empty lines that arrive later -/

/-- An empty line that more bytes complete ends past the bytes before them. -/
theorem findHeadEnd_later {buf rest : List UInt8} {n : ℕ} (hnone : findHeadEnd buf = none)
    (h : findHeadEnd (buf ++ rest) = some n) : buf.length < n := by
  induction buf generalizing n with
  | nil =>
    have hlow := (findHeadEnd_bounds h).1
    rw [length_nil]
    omega
  | cons b buf ih =>
    rw [findHeadEnd] at hnone
    rw [cons_append, findHeadEnd] at h
    split at hnone
    · cases hnone
    · rename_i hstart
      split at h
      · rename_i hlong
        obtain rfl := Option.some.inj h
        by_contra hshort
        -- four bytes that are there already would have been found
        apply hstart
        rw [ isPrefixOf_iff_prefix] at hlong ⊢
        exact prefix_of_prefix_length_le hlong ⟨rest, rfl⟩ (not_lt.1 hshort)
      · obtain ⟨k, hk, hn⟩ := Option.map_eq_some_iff.1 h
        have hlater := ih (Option.map_eq_none_iff.1 hnone) hk
        rw [length_cons]
        omega

/-- The bytes up to the first empty line have the same first empty line. -/
theorem findHeadEnd_take {buf : List UInt8} {n : ℕ} (h : findHeadEnd buf = some n) :
    findHeadEnd (buf.take n) = some n := by
  cases hfind : findHeadEnd (buf.take n) with
  | none =>
    have hlater := findHeadEnd_later hfind ((take_append_drop n buf).symm ▸ h)
    rw [length_take, Nat.min_eq_left (findHeadEnd_bounds h).2.1] at hlater
    exact absurd hlater (lt_irrefl n)
  | some k =>
    have hsame := findHeadEnd_append hfind (buf.drop n)
    rw [take_append_drop, h] at hsame
    exact hsame.symm

/-! ### Parsers of heads -/

namespace Framed

variable {α : Type}

/-- A parser that looks for the first empty line: `early` is its check of what arrived before it,
`inner` parses the bytes in front of it. -/
def parse (bound : ℕ) (early : List UInt8 → Option HttpErrorKind)
    (inner : List UInt8 → ℕ → Except HttpErrorKind α) (buf : List UInt8) :
    Except HttpErrorKind (ParseStatus α) :=
  match findHeadEnd buf with
  | none =>
    if bound < buf.length then .error .headTooLarge
    else
      match early buf with
      | some e => .error e
      | none => .ok .incomplete
  | some headEnd =>
    if bound < headEnd then .error .headTooLarge
    else (inner (buf.take (headEnd - 4)) headEnd).map .complete

/-- The early check refuses no part of what it does not refuse, and no head that is accepted. -/
structure Agrees (early : List UInt8 → Option HttpErrorKind)
    (inner : List UInt8 → ℕ → Except HttpErrorKind α) (headLen : α → ℕ) : Prop where
  len : ∀ bytes n head, inner bytes n = .ok head → headLen head = n
  part : ∀ a b, early (a ++ b) = none → early a = none
  accepted : ∀ bytes n head, inner bytes n = .ok head → early (bytes ++ (crlf ++ crlf)) = none

variable {bound : ℕ} {early : List UInt8 → Option HttpErrorKind}
  {inner : List UInt8 → ℕ → Except HttpErrorKind α} {headLen : α → ℕ}

/-- Bytes that have the first empty line are parsed the same whatever follows them. -/
theorem parse_append {buf : List UInt8} {n : ℕ} (h : findHeadEnd buf = some n) (rest : List UInt8) :
    parse bound early inner (buf ++ rest) = parse bound early inner buf := by
  have hbound := (findHeadEnd_bounds h).2.1
  have htake : (buf ++ rest).take (n - 4) = buf.take (n - 4) :=
    take_append_of_le_length ((Nat.sub_le n 4).trans hbound)
  rw [parse, parse]
  simp only [findHeadEnd_append h rest, h, htake]

theorem parse_none {buf : List UInt8} (h : findHeadEnd buf = none) (hlen : buf.length ≤ bound)
    (hearly : early buf = none) : parse bound early inner buf = .ok .incomplete := by
  rw [parse]
  simp only [h, if_neg (not_lt.2 hlen), hearly]

/-- What an accepted head is. -/
theorem parse_complete {buf : List UInt8} {head : α}
    (h : parse bound early inner buf = .ok (.complete head)) :
    ∃ n, findHeadEnd buf = some n ∧ n ≤ bound ∧ inner (buf.take (n - 4)) n = .ok head := by
  rw [parse] at h
  cases hfind : findHeadEnd buf with
  | none =>
    simp only [hfind] at h
    obtain ⟨-, h⟩ := check_eq_ok h
    split at h <;> cases h
  | some n =>
    simp only [hfind] at h
    obtain ⟨hmax, h⟩ := check_eq_ok h
    obtain ⟨head', hparse, hsame⟩ := map_eq_ok h
    obtain rfl := ParseStatus.complete.inj hsame
    exact ⟨n, rfl, not_lt.1 hmax, hparse⟩

/-- The early check passes every part of an accepted head. -/
theorem early_part (hagrees : Agrees early inner headLen) {buf part : List UInt8} {n : ℕ} {head : α}
    (hfind : findHeadEnd buf = some n) (hparse : inner (buf.take (n - 4)) n = .ok head)
    (hpart : part <+: buf.take n) : early part = none := by
  obtain ⟨b, hb⟩ := hpart
  have hwhole := hagrees.accepted _ _ _ hparse
  rw [← (findHeadEnd_bounds hfind).2.2, ← hb] at hwhole
  exact hagrees.part part b hwhole

/-- A refusal before the empty line has arrived stays a refusal. -/
theorem refused_early (hagrees : Agrees early inner headLen) {buf : List UInt8} {e : HttpErrorKind}
    (hnone : findHeadEnd buf = none) (h : parse bound early inner buf = .error e)
    (rest : List UInt8) : ∃ e', parse bound early inner (buf ++ rest) = .error e' := by
  cases hlater : parse bound early inner (buf ++ rest) with
  | error e' => exact ⟨e', rfl⟩
  | ok status =>
    exfalso
    -- the size and the early check would both have passed the shorter bytes
    suffices hpassed : buf.length ≤ bound ∧ early buf = none by
      rw [parse_none hnone hpassed.1 hpassed.2] at h
      cases h
    cases status with
    | complete head =>
      obtain ⟨n, hfind, hmax, hparse⟩ := parse_complete hlater
      have hn := findHeadEnd_later hnone hfind
      refine ⟨hn.le.trans hmax, early_part hagrees hfind hparse ?_⟩
      rw [take_append, take_of_length_le hn.le]
      exact prefix_append buf _
    | incomplete =>
      rw [parse] at hlater
      split at hlater
      · obtain ⟨hlen, hlater⟩ := check_eq_ok hlater
        rw [length_append] at hlen
        cases hscan : early (buf ++ rest) with
        | some e' =>
          rw [hscan] at hlater
          cases hlater
        | none => exact ⟨by omega, hagrees.part buf rest hscan⟩
      · obtain ⟨-, hlater⟩ := check_eq_ok hlater
        obtain ⟨head, -, hsame⟩ := map_eq_ok hlater
        cases hsame

/-- **A parser whose early check agrees with the later one is stable.** -/
theorem stable (hagrees : Agrees early inner headLen) :
    Stable (parse bound early inner) headLen := by
  refine ⟨?_, ?_, ?_, ?_⟩
  · intro buf head h
    obtain ⟨n, hfind, -, hparse⟩ := parse_complete h
    rw [hagrees.len _ _ _ hparse]
    exact (findHeadEnd_bounds hfind).2.1
  · intro buf head h rest
    obtain ⟨n, hfind, -, -⟩ := parse_complete h
    rw [parse_append hfind, h]
  · intro buf head h part hpart hne
    obtain ⟨n, hfind, hmax, hparse⟩ := parse_complete h
    rw [hagrees.len _ _ _ hparse] at hpart hne
    have hearly := early_part hagrees hfind hparse hpart
    obtain ⟨b, hb⟩ := hpart
    have hlength : part.length + b.length = n := by
      rw [← length_append, hb, length_take, Nat.min_eq_left (findHeadEnd_bounds hfind).2.1]
    have hnone : findHeadEnd part = none := by
      refine findHeadEnd_part (b := b) ?_ ?_
      · rintro rfl
        exact hne ((append_nil part).symm.trans hb)
      · rw [hb, findHeadEnd_take hfind, ← hb, length_append, hlength]
    exact parse_none hnone (by omega) hearly
  · intro buf e h rest
    cases hfind : findHeadEnd buf with
    | none => exact refused_early hagrees hfind h rest
    | some n => exact ⟨e, (parse_append hfind rest).trans h⟩

end Framed

/-! ### Requests and responses -/

theorem parseRequestHead_framed (limits : Limits) :
    (parseRequestHead · limits) = Framed.parse limits.clamped.maxHeadBytes scanForBareTerminators
      fun bytes n => parseHead bytes n limits.clamped := rfl

theorem parseResponseHead_framed (requestMethod : Method) (limits : Limits) :
    (parseResponseHead · requestMethod limits) = Framed.parse limits.clamped.maxHeadBytes
      (fun _ => none) fun bytes n => parseResponse bytes n requestMethod limits.clamped := rfl

theorem parseHead_agrees (limits : Limits) :
    Framed.Agrees scanForBareTerminators (fun bytes n => parseHead bytes n limits)
      RequestHead.headLen := by
  refine ⟨?_, ?_, ?_⟩
  · intro bytes n head h
    exact (parseHead_ok h).1
  · intro a b h
    exact scan_part h
  · intro bytes n head h
    obtain ⟨-, -, lines, hlines⟩ := parseHead_ok h
    exact scan_of_splitCrlf hlines

theorem parseResponse_headLen {bytes : List UInt8} {n : ℕ} {requestMethod : Method} {limits : Limits}
    {head : ResponseHead} (h : parseResponse bytes n requestMethod limits = .ok head) :
    head.headLen = n := by
  rw [parseResponse] at h
  obtain ⟨-, h⟩ := check_eq_ok h
  obtain ⟨lines, -, h⟩ := bind_eq_ok h
  obtain _ | ⟨statusLine, rest⟩ := lines
  · cases h
  · obtain ⟨r, -, h⟩ := bind_eq_ok h
    obtain ⟨-, h⟩ := check_eq_ok h
    obtain ⟨headers, -, h⟩ := bind_eq_ok h
    obtain ⟨body, -, h⟩ := bind_eq_ok h
    cases h
    rfl

theorem parseResponse_agrees (requestMethod : Method) (limits : Limits) :
    Framed.Agrees (fun _ => none) (fun bytes n => parseResponse bytes n requestMethod limits)
      ResponseHead.headLen :=
  ⟨fun _ _ _ h => parseResponse_headLen h, fun _ _ _ => rfl, fun _ _ _ _ => rfl⟩

/-- **Heads are stable under further input.** -/
theorem heads_stable (limits : Limits) :
    Stable (parseRequestHead · limits) RequestHead.headLen ∧
      ∀ requestMethod, Stable (parseResponseHead · requestMethod limits) ResponseHead.headLen := by
  constructor
  · rw [parseRequestHead_framed]
    exact Framed.stable (parseHead_agrees limits.clamped)
  · intro requestMethod
    rw [parseResponseHead_framed]
    exact Framed.stable (parseResponse_agrees requestMethod limits.clamped)

end HypeLlm.Http
