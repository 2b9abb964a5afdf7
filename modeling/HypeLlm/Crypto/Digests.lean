import HypeLlm.Lib.Bytes
import HypeLlm.Lib.Words

/-!
# Checksums and digests

The checksum is CRC-32 with the reflected polynomial; the digest is SHA-256, and the authentication
code is HMAC over it.  The hasher takes its message in parts: what does not fill a block waits, and
finishing appends a marker bit, zeroes and the length of the message in bits.
-/

namespace HypeLlm.Crypto

open HypeLlm.Bytes HypeLlm.Words

/-! ### CRC-32 -/

/-- One bit of the division by the polynomial. -/
def crcBit (crc : UInt32) : UInt32 := if crc &&& 1 != 0 then (crc >>> 1) ^^^ 0xEDB88320 else crc >>> 1

/-- The table's entry for a byte. -/
def crcEntry (byte : UInt8) : UInt32 := Nat.iterate crcBit 8 byte.toUInt32

/-- Absorb one byte. -/
def crcStep (crc : UInt32) (byte : UInt8) : UInt32 := (crc >>> 8) ^^^ crcEntry (crc.toUInt8 ^^^ byte)

def crc32 (data : List UInt8) : UInt32 := data.foldl crcStep 0xFFFFFFFF ^^^ 0xFFFFFFFF

/-! ### SHA-256 -/

def digestLen : ℕ := 32

def blockLen : ℕ := 64

/-- Eight working words. -/
structure Chain where
  (a b c d e f g h : UInt32)
  deriving Repr, DecidableEq

def Chain.init : Chain :=
  ⟨0x6a09e667, 0xbb67ae85, 0x3c6ef372, 0xa54ff53a, 0x510e527f, 0x9b05688c, 0x1f83d9ab, 0x5be0cd19⟩

/-- The round constants. -/
def roundConstants : List UInt32 :=
  [0x428a2f98, 0x71374491, 0xb5c0fbcf, 0xe9b5dba5, 0x3956c25b, 0x59f111f1, 0x923f82a4, 0xab1c5ed5,
    0xd807aa98, 0x12835b01, 0x243185be, 0x550c7dc3, 0x72be5d74, 0x80deb1fe, 0x9bdc06a7, 0xc19bf174,
    0xe49b69c1, 0xefbe4786, 0x0fc19dc6, 0x240ca1cc, 0x2de92c6f, 0x4a7484aa, 0x5cb0a9dc, 0x76f988da,
    0x983e5152, 0xa831c66d, 0xb00327c8, 0xbf597fc7, 0xc6e00bf3, 0xd5a79147, 0x06ca6351, 0x14292967,
    0x27b70a85, 0x2e1b2138, 0x4d2c6dfc, 0x53380d13, 0x650a7354, 0x766a0abb, 0x81c2c92e, 0x92722c85,
    0xa2bfe8a1, 0xa81a664b, 0xc24b8b70, 0xc76c51a3, 0xd192e819, 0xd6990624, 0xf40e3585, 0x106aa070,
    0x19a4c116, 0x1e376c08, 0x2748774c, 0x34b0bcb5, 0x391c0cb3, 0x4ed8aa4a, 0x5b9cca4f, 0x682e6ff3,
    0x748f82ee, 0x78a5636f, 0x84c87814, 0x8cc70208, 0x90befffa, 0xa4506ceb, 0xbef9a3f7, 0xc67178f2]

def rotateRight (x n : UInt32) : UInt32 := (x >>> n) ||| (x <<< (32 - n))

/-- The bytes of a number, highest first. -/
def toBe (width n : ℕ) : List UInt8 := (toLe width n).reverse

def ofBe (bytes : List UInt8) : ℕ := ofLe bytes.reverse

/-- The sixteen words of a block, the last one first. -/
def blockWords (block : List UInt8) : List UInt32 :=
  ((List.range 16).map fun i => UInt32.ofNat (ofBe (field block (4 * i) 4))).reverse

/-- The next word of the schedule, from the words before it, the last one first. -/
def nextWord (words : List UInt32) : UInt32 :=
  let wm2 := words.getD 1 0
  let wm7 := words.getD 6 0
  let wm15 := words.getD 14 0
  let wm16 := words.getD 15 0
  let s0 := rotateRight wm15 7 ^^^ rotateRight wm15 18 ^^^ (wm15 >>> 3)
  let s1 := rotateRight wm2 17 ^^^ rotateRight wm2 19 ^^^ (wm2 >>> 10)
  wm16 + s0 + wm7 + s1

/-- The message schedule: 64 words. -/
def schedule (block : List UInt8) : List UInt32 :=
  (Nat.iterate (fun words => nextWord words :: words) 48 (blockWords block)).reverse

def round (s : Chain) (kw : UInt32 × UInt32) : Chain :=
  let s1 := rotateRight s.e 6 ^^^ rotateRight s.e 11 ^^^ rotateRight s.e 25
  let ch := (s.e &&& s.f) ^^^ (~~~s.e &&& s.g)
  let temp1 := s.h + s1 + ch + kw.1 + kw.2
  let s0 := rotateRight s.a 2 ^^^ rotateRight s.a 13 ^^^ rotateRight s.a 22
  let maj := (s.a &&& s.b) ^^^ (s.a &&& s.c) ^^^ (s.b &&& s.c)
  let temp2 := s0 + maj
  ⟨temp1 + temp2, s.a, s.b, s.c, s.d + temp1, s.e, s.f, s.g⟩

def compress (s : Chain) (block : List UInt8) : Chain :=
  let t := (roundConstants.zip (schedule block)).foldl round s
  ⟨s.a + t.a, s.b + t.b, s.c + t.c, s.d + t.d, s.e + t.e, s.f + t.f, s.g + t.g, s.h + t.h⟩

/-- A hasher: the chain, what does not fill a block yet, and the length so far. -/
structure Sha256 where
  chain : Chain
  buf : List UInt8
  totalLen : ℕ
  deriving Repr, DecidableEq

namespace Sha256

def new : Sha256 := ⟨Chain.init, [], 0⟩

/-- Absorb `data`. -/
def update (s : Sha256) (data : List UInt8) : Sha256 :=
  let input := s.buf ++ data
  let blocks := input.length / blockLen
  { chain := (List.range blocks).foldl
      (fun chain i => compress chain (field input (blockLen * i) blockLen)) s.chain
    buf := input.drop (blockLen * blocks)
    totalLen := satAdd u64Max s.totalLen data.length }

/-- Append the marker, zeroes and the length in bits, and give the digest. -/
def finalize (s : Sha256) : List UInt8 :=
  let bitLen := satMul u64Max s.totalLen 8
  let marked := s.buf ++ [0x80]
  let (chain, block) :=
    if blockLen - 8 < marked.length then
      (compress s.chain (marked ++ List.replicate (blockLen - marked.length) 0),
        List.replicate (blockLen - 8) 0)
    else (s.chain, marked ++ List.replicate (blockLen - 8 - marked.length) 0)
  let t := compress chain (block ++ toBe 8 bitLen)
  [t.a, t.b, t.c, t.d, t.e, t.f, t.g, t.h].flatMap fun word => toBe 4 word.toNat

end Sha256

def sha256 (data : List UInt8) : List UInt8 := (Sha256.new.update data).finalize

theorem length_finalize (s : Sha256) : s.finalize.length = digestLen := by
  simp [Sha256.finalize, toBe, digestLen]

/-! ### HMAC -/

/-- The authentication code of `msg` under a key of any length. -/
def hmacSha256 (key msg : List UInt8) : List UInt8 :=
  let short := if blockLen < key.length then sha256 key else key
  let k0 := short ++ List.replicate (blockLen - short.length) 0
  let inner := ((Sha256.new.update (k0.map (· ^^^ 0x36))).update msg).finalize
  ((Sha256.new.update (k0.map (· ^^^ 0x5c))).update inner).finalize

theorem length_hmacSha256 (key msg : List UInt8) : (hmacSha256 key msg).length = digestLen :=
  length_finalize _

-- The check value of the checksum, and a published vector of the digest and of the code.
example : crc32 ("123456789".toUTF8.toList) = 0xCBF43926 := by decide +kernel

example : (sha256 "abc".toUTF8.toList).take 4 = [0xba, 0x78, 0x16, 0xbf] := by decide +kernel

example : (hmacSha256 "Jefe".toUTF8.toList "what do ya want for nothing?".toUTF8.toList).take 4 =
    [0x5b, 0xdc, 0xc1, 0x46] := by decide +kernel

end HypeLlm.Crypto
