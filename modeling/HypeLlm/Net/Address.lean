import Mathlib

/-!
# Addresses and their classes

What a destination's address may be is decided by its class, and the class by an ordered cascade of
tests over the octets of an IPv4 address and the segments of an IPv6 one.

* `classifyIpv4`, `classifyIpv6` — the cascade;
* `toIpv4Equivalent` — the IPv4 address that an IPv6 one is only a spelling of;
* `EgressProfile.permits` — the classes a profile opens.
-/

namespace HypeLlm.Net

/-! ### Addresses -/

/-- An IPv4 address by its octets. -/
structure Ipv4Addr where
  a : UInt8
  b : UInt8
  c : UInt8
  d : UInt8
  deriving Repr, DecidableEq

/-- An IPv6 address by its segments. -/
structure Ipv6Addr where
  s0 : UInt16
  s1 : UInt16
  s2 : UInt16
  s3 : UInt16
  s4 : UInt16
  s5 : UInt16
  s6 : UInt16
  s7 : UInt16
  deriving Repr, DecidableEq

inductive IpAddr where
  | v4 (addr : Ipv4Addr)
  | v6 (addr : Ipv6Addr)
  deriving Repr, DecidableEq

/-- The two octets of a segment, the high one first. -/
def toBeBytes (s : UInt16) : UInt8 × UInt8 := ((s >>> 8).toUInt8, s.toUInt8)

/-- The IPv4 address whose octets stand in two segments. -/
def ofSegments (high low : UInt16) : Ipv4Addr :=
  ⟨(toBeBytes high).1, (toBeBytes high).2, (toBeBytes low).1, (toBeBytes low).2⟩

namespace Ipv4Addr

def isUnspecified (addr : Ipv4Addr) : Bool := addr = ⟨0, 0, 0, 0⟩

def isLoopback (addr : Ipv4Addr) : Bool := addr.a = 127

def isLinkLocal (addr : Ipv4Addr) : Bool := addr.a = 169 ∧ addr.b = 254

def isBroadcast (addr : Ipv4Addr) : Bool := addr = ⟨255, 255, 255, 255⟩

def isMulticast (addr : Ipv4Addr) : Bool := 224 ≤ addr.a ∧ addr.a ≤ 239

def isPrivate (addr : Ipv4Addr) : Bool :=
  addr.a = 10 ∨ (addr.a = 172 ∧ 16 ≤ addr.b ∧ addr.b ≤ 31) ∨ (addr.a = 192 ∧ addr.b = 168)

def isDocumentation (addr : Ipv4Addr) : Bool :=
  (addr.a = 192 ∧ addr.b = 0 ∧ addr.c = 2) ∨ (addr.a = 198 ∧ addr.b = 51 ∧ addr.c = 100) ∨
    (addr.a = 203 ∧ addr.b = 0 ∧ addr.c = 113)

end Ipv4Addr

namespace Ipv6Addr

def isUnspecified (addr : Ipv6Addr) : Bool := addr = ⟨0, 0, 0, 0, 0, 0, 0, 0⟩

def isLoopback (addr : Ipv6Addr) : Bool := addr = ⟨0, 0, 0, 0, 0, 0, 0, 1⟩

def isMulticast (addr : Ipv6Addr) : Bool := addr.s0 &&& 0xff00 = 0xff00

end Ipv6Addr

/-! ### Classes -/

inductive AddressClass where
  | loopback
  | unspecified
  | linkLocal
  | metadata
  | «private»
  | sharedAddressSpace
  | multicast
  | broadcast
  | reserved
  | global
  deriving Repr, DecidableEq

def AddressClass.isGlobal : AddressClass → Bool
  | .global => true
  | _ => false

/-- The well-known addresses of the metadata services of clouds. -/
def metadataV4 : List Ipv4Addr :=
  [⟨169, 254, 169, 254⟩, ⟨100, 100, 100, 200⟩, ⟨192, 0, 0, 192⟩, ⟨169, 254, 169, 253⟩]

def classifyIpv4 (addr : Ipv4Addr) : AddressClass :=
  if addr ∈ metadataV4 then .metadata
  else if addr.isUnspecified then .unspecified
  -- the rest of "this network", which some stacks route to the local host
  else if addr.a = 0 then .reserved
  else if addr.isLoopback then .loopback
  else if addr.isLinkLocal then .linkLocal
  else if addr.isBroadcast then .broadcast
  else if addr.isMulticast then .multicast
  else if addr.isPrivate then .«private»
  else if addr.a = 100 ∧ 64 ≤ addr.b ∧ addr.b < 128 then .sharedAddressSpace
  else if addr.isDocumentation then .reserved
  else if (addr.a = 198 ∧ (addr.b = 18 ∨ addr.b = 19)) ∨ 240 ≤ addr.a ∨
      (addr.a = 192 ∧ addr.b = 0 ∧ addr.c = 0) then .reserved
  else .global

/-- The IPv4 address that an IPv6 address is equivalent to: mapped, compatible or translated. -/
def toIpv4Equivalent (addr : Ipv6Addr) : Option Ipv4Addr :=
  let tail := ofSegments addr.s6 addr.s7
  if addr.s0 = 0 ∧ addr.s1 = 0 ∧ addr.s2 = 0 ∧ addr.s3 = 0 ∧ addr.s4 = 0 ∧ addr.s5 = 0xffff then
    some tail
  else if (addr.s0 = 0 ∧ addr.s1 = 0 ∧ addr.s2 = 0 ∧ addr.s3 = 0 ∧ addr.s4 = 0 ∧ addr.s5 = 0) ∧
      ¬(addr.s6 = 0 ∧ (addr.s7 = 0 ∨ addr.s7 = 1)) then
    some tail
  else if addr.s0 = 0x0064 ∧ addr.s1 = 0xff9b ∧
      addr.s2 = 0 ∧ addr.s3 = 0 ∧ addr.s4 = 0 ∧ addr.s5 = 0 then
    some tail
  else none

def classifyIpv6 (addr : Ipv6Addr) : AddressClass :=
  match toIpv4Equivalent addr with
  | some v4 => classifyIpv4 v4
  | none =>
    if addr = ⟨0xfd00, 0x00ec, 0x0002, 0, 0, 0, 0, 0x0254⟩ then .metadata
    else if addr.isUnspecified then .unspecified
    else if addr.isLoopback then .loopback
    else if addr.isMulticast then .multicast
    -- local-use translation: where it leads is the operator's configuration
    else if addr.s0 = 0x0064 ∧ addr.s1 = 0xff9b ∧ addr.s2 = 0x0001 then .reserved
    -- 6to4 carries its IPv4 address in the second and third segments
    else if addr.s0 = 0x2002 then
      let embedded := classifyIpv4 (ofSegments addr.s1 addr.s2)
      if embedded.isGlobal then .reserved else embedded
    else if addr.s0 &&& 0xffc0 = 0xfe80 then .linkLocal
    else if addr.s0 &&& 0xfe00 = 0xfc00 then .«private»
    else if (addr.s0 = 0x2001 ∧ addr.s1 = 0x0db8) ∨
        (addr.s0 = 0x0100 ∧ addr.s1 = 0 ∧ addr.s2 = 0 ∧ addr.s3 = 0) then .reserved
    else .global

def classify : IpAddr → AddressClass
  | .v4 addr => classifyIpv4 addr
  | .v6 addr => classifyIpv6 addr

/-! ### Profiles -/

/-- What an egress profile permits. -/
structure EgressProfile where
  allowLoopback : Bool
  allowPrivate : Bool
  allowLinkLocal : Bool
  allowGlobal : Bool
  deriving Repr, DecidableEq

namespace EgressProfile

/-- A provider inside a private network. -/
def privateNetwork : EgressProfile := ⟨false, true, false, false⟩

def permits (profile : EgressProfile) : AddressClass → Bool
  | .loopback => profile.allowLoopback
  | .«private» => profile.allowPrivate
  | .linkLocal => profile.allowLinkLocal
  | .global => profile.allowGlobal
  | .metadata | .multicast | .broadcast | .unspecified | .reserved | .sharedAddressSpace => false

def permitsAddress (profile : EgressProfile) (addr : IpAddr) : Bool :=
  profile.permits (classify addr)

end EgressProfile

end HypeLlm.Net
