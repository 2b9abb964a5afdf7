import HypeLlm.Net.Blocks
import HypeLlm.Net.Host

/-!
# Egress

An endpoint is resolved once, every address it stands for is classified, and the first that the
egress profile and the scheme permit is pinned for the connection.

* `resolve_eq` — what is pinned is the first reachable candidate;
* `egress_pinned` — and so neither the resolver's answer nor the profile opens a refused address, an
  IPv6 spelling of one, or cleartext beyond loopback and a private network.
-/

namespace HypeLlm.Net

/-! ### Endpoints and destinations -/

inductive EndpointScheme where
  | http
  | https
  | unix
  deriving Repr, DecidableEq

def EndpointScheme.needsTls : EndpointScheme → Bool
  | .https => true
  | _ => false

/-- An upstream endpoint that the administrator declared. -/
structure Endpoint where
  scheme : EndpointScheme
  /-- A name, an address, or the path of a Unix socket. -/
  host : String
  port : UInt16
  deriving Repr, DecidableEq

def Endpoint.authority (endpoint : Endpoint) : String :=
  match endpoint.scheme, endpoint.port with
  | .unix, _ => "localhost"
  | .http, 80 => endpoint.host
  | .https, 443 => endpoint.host
  | _, port => endpoint.host ++ ":" ++ toString port.toNat

structure SocketAddr where
  ip : IpAddr
  port : UInt16
  deriving Repr, DecidableEq

inductive DestinationAddress where
  | socket (addr : SocketAddr)
  | unix (path : String)
  deriving Repr, DecidableEq

structure PinnedDestination where
  address : DestinationAddress
  authority : String
  sni : Option String
  needsTls : Bool
  cls : Option AddressClass
  deriving Repr, DecidableEq

inductive EgressError where
  | resolutionFailed (host : String)
  | allAddressesRefused (host : String) (classes : List AddressClass)
  | invalidHost (host : String)
  deriving Repr, DecidableEq

/-! ### The resolver -/

/-- What a resolution strategy answers for a name and a port, none when it fails. -/
abbrev Lookup := List UInt8 → UInt16 → Option (List SocketAddr)

/-- Cleartext is loopback, or a private address under the private network's profile. -/
def cleartextPermitted (scheme : EndpointScheme) (cls : AddressClass) (profile : EgressProfile) :
    Bool :=
  scheme ≠ .http ∨ cls = .loopback ∨ (cls = .«private» ∧ profile = .privateNetwork)

/-- A destination for an address that has been classified and permitted. -/
def validated (endpoint : Endpoint) (addr : SocketAddr) (cls : AddressClass) : PinnedDestination :=
  ⟨.socket addr, endpoint.authority,
    match endpoint.scheme with
    | .https => some endpoint.host
    | _ => none,
    endpoint.scheme.needsTls, some cls⟩

/-- The candidates in turn, with the classes refused so far. -/
def pinFirst (endpoint : Endpoint) (profile : EgressProfile) :
    List AddressClass → List SocketAddr → Except EgressError PinnedDestination
  | refused, [] => .error (.allAddressesRefused endpoint.host refused)
  | refused, candidate :: rest =>
    let cls := classify candidate.ip
    if profile.permits cls ∧ cleartextPermitted endpoint.scheme cls profile then
      .ok (validated endpoint candidate cls)
    else pinFirst endpoint profile (if cls ∈ refused then refused else refused ++ [cls]) rest

def resolve (lookup : Lookup) (endpoint : Endpoint) (profile : EgressProfile) :
    Except EgressError PinnedDestination :=
  if endpoint.scheme = .unix then
    .ok ⟨.unix endpoint.host, endpoint.authority, none, false, none⟩
  else
    let host := Utf8.encode endpoint.host.toList
    if ¬isValidHost host then .error (.invalidHost endpoint.host)
    else
      let bare := (bracketed host).getD host
      -- an address needs no lookup; a name goes to the resolver
      let candidates :=
        match parseIp bare with
        | some addr => some [⟨addr, endpoint.port⟩]
        | none => lookup bare endpoint.port
      match candidates with
      | none => .error (.resolutionFailed endpoint.host)
      | some [] => .error (.resolutionFailed endpoint.host)
      | some candidates => pinFirst endpoint profile [] candidates

/-! ### What is pinned -/

/-- The addresses an endpoint stands for: its own where its host is one, and otherwise what the
resolver answers for the name.  A host that is no host stands for none. -/
def candidates (lookup : Lookup) (endpoint : Endpoint) : List SocketAddr :=
  let host := Utf8.encode endpoint.host.toList
  let bare := (bracketed host).getD host
  if isValidHost host then
    match parseIp bare with
    | some addr => [⟨addr, endpoint.port⟩]
    | none => (lookup bare endpoint.port).getD []
  else []

/-- The profile permits the address, and cleartext goes to loopback, or to a private address under
exactly the private network's profile. -/
def Reachable (scheme : EndpointScheme) (profile : EgressProfile) (addr : IpAddr) : Prop :=
  profile.permitsAddress addr ∧
    (scheme = .http → IsLoopback addr ∨ (IsPrivate addr ∧ profile = .privateNetwork))

theorem reachable_iff (scheme : EndpointScheme) (profile : EgressProfile) (addr : IpAddr) :
    Reachable scheme profile addr ↔
      profile.permits (classify addr) ∧ cleartextPermitted scheme (classify addr) profile := by
  rw [Reachable, ← classify_eq_loopback, ← classify_eq_private, EgressProfile.permitsAddress,
    cleartextPermitted, decide_eq_true_eq, ne_eq, ← imp_iff_not_or]

theorem Reachable.not_refused {scheme : EndpointScheme} {profile : EgressProfile} {addr : IpAddr}
    (h : Reachable scheme profile addr) : ¬IsRefused addr := by
  rw [← not_opened_classify, not_not]
  exact EgressProfile.opened_of_permits h.1

instance (scheme : EndpointScheme) (profile : EgressProfile) (addr : IpAddr) :
    Decidable (Reachable scheme profile addr) :=
  decidable_of_iff _ (reachable_iff scheme profile addr).symm

/-- One of the candidates in turn is pinned, the first that is reachable. -/
theorem pinFirst_eq (endpoint : Endpoint) (profile : EgressProfile) (addrs : List SocketAddr) :
    ∀ refused, pinFirst endpoint profile refused addrs =
      match addrs.find? fun addr => Reachable endpoint.scheme profile addr.ip with
      | some addr => .ok (validated endpoint addr (classify addr.ip))
      | none => .error (.allAddressesRefused endpoint.host
          ((addrs.map fun addr => classify addr.ip).foldl
            (fun refused cls => if cls ∈ refused then refused else refused ++ [cls]) refused)) := by
  induction addrs with
  | nil => intro refused; rfl
  | cons addr addrs ih =>
    intro refused
    rw [pinFirst]
    by_cases hreach : Reachable endpoint.scheme profile addr.ip
    · rw [if_pos ((reachable_iff _ _ _).1 hreach), List.find?_cons_of_pos (by simpa using hreach)]
    · rw [if_neg (fun h => hreach ((reachable_iff _ _ _).2 h)), ih,
        List.find?_cons_of_neg (by simpa using hreach)]
      rfl

/-- An endpoint that stands for no address is refused, and for every other its addresses are tried
in turn. -/
theorem resolve_cases (lookup : Lookup) {endpoint : Endpoint} (profile : EgressProfile)
    (hnetwork : endpoint.scheme ≠ .unix) :
    (candidates lookup endpoint = [] ∧ ∃ e, resolve lookup endpoint profile = .error e) ∨
      resolve lookup endpoint profile =
        pinFirst endpoint profile [] (candidates lookup endpoint) := by
  unfold resolve candidates
  rw [if_neg hnetwork]
  dsimp only
  by_cases hhost : isValidHost (Utf8.encode endpoint.host.toList)
  · rw [if_neg (not_not.2 hhost), if_pos hhost]
    cases hip : parseIp ((bracketed (Utf8.encode endpoint.host.toList)).getD
        (Utf8.encode endpoint.host.toList)) with
    | some addr => exact .inr rfl
    | none =>
      cases hlookup : lookup ((bracketed (Utf8.encode endpoint.host.toList)).getD
          (Utf8.encode endpoint.host.toList)) endpoint.port with
      | none => exact .inl ⟨rfl, _, rfl⟩
      | some addrs =>
        cases addrs with
        | nil => exact .inl ⟨rfl, _, rfl⟩
        | cons addr addrs => exact .inr rfl
  · rw [if_pos hhost, if_neg hhost]
    exact .inl ⟨rfl, _, rfl⟩

theorem resolve_eq_ok_iff (lookup : Lookup) {endpoint : Endpoint} (profile : EgressProfile)
    (hnetwork : endpoint.scheme ≠ .unix) (dest : PinnedDestination) :
    resolve lookup endpoint profile = .ok dest ↔
      ∃ addr, (candidates lookup endpoint).find?
          (fun addr => Reachable endpoint.scheme profile addr.ip) = some addr ∧
        dest = validated endpoint addr (classify addr.ip) := by
  rcases resolve_cases lookup profile hnetwork with ⟨hnone, e, herror⟩ | hpin
  · rw [hnone, herror]
    simp
  · rw [hpin, pinFirst_eq]
    split
    next addr hfind => rw [hfind]; simp [eq_comm]
    next hfind => rw [hfind]; simp

theorem resolve_error_iff (lookup : Lookup) {endpoint : Endpoint} (profile : EgressProfile)
    (hnetwork : endpoint.scheme ≠ .unix) :
    (∃ e, resolve lookup endpoint profile = .error e) ↔
      ∀ addr ∈ candidates lookup endpoint, ¬Reachable endpoint.scheme profile addr.ip := by
  rcases resolve_cases lookup profile hnetwork with ⟨hnone, e, herror⟩ | hpin
  · rw [hnone, herror]
    simp
  · rw [hpin, pinFirst_eq]
    split
    next addr hfind =>
      have hreach := List.find?_some hfind
      constructor
      · rintro ⟨e, h⟩
        cases h
      · intro hnone
        exact absurd (of_decide_eq_true hreach) (hnone addr (List.mem_of_find?_eq_some hfind))
    next hfind => simpa using hfind

/-- **Egress is pinned to a permitted address.**  What a network endpoint is resolved to is the first
of its addresses that the profile and the scheme permit, and an error exactly when there is none;
the address pinned is of no refused block, any IPv4 address it carries is one that the profile
permits, and cleartext is pinned to loopback, or to a private address under exactly the private
network's profile. -/
theorem egress_pinned (lookup : Lookup) (endpoint : Endpoint) (profile : EgressProfile)
    (hnetwork : endpoint.scheme ≠ .unix) :
    (∀ dest, resolve lookup endpoint profile = .ok dest ↔
      ∃ before addr after, candidates lookup endpoint = before ++ addr :: after ∧
        (∀ other ∈ before, ¬Reachable endpoint.scheme profile other.ip) ∧
        Reachable endpoint.scheme profile addr.ip ∧
        dest = validated endpoint addr (classify addr.ip)) ∧
    ((∃ e, resolve lookup endpoint profile = .error e) ↔
      ∀ addr ∈ candidates lookup endpoint, ¬Reachable endpoint.scheme profile addr.ip) ∧
    ∀ dest, resolve lookup endpoint profile = .ok dest →
      ∃ addr ∈ candidates lookup endpoint, dest.address = .socket addr ∧ ¬IsRefused addr.ip ∧
        (∀ v6 v4, addr.ip = .v6 v6 → Carries v6 v4 → profile.permitsAddress (.v4 v4)) ∧
        (endpoint.scheme = .http →
          IsLoopback addr.ip ∨ (IsPrivate addr.ip ∧ profile = .privateNetwork)) := by
  refine ⟨fun dest => ?_, resolve_error_iff lookup profile hnetwork, fun dest h => ?_⟩
  · rw [resolve_eq_ok_iff lookup profile hnetwork]
    constructor
    · rintro ⟨addr, hfind, rfl⟩
      obtain ⟨hreach, before, after, heq, hbefore⟩ := List.find?_eq_some_iff_append.1 hfind
      exact ⟨before, addr, after, heq, by simpa using hbefore, of_decide_eq_true hreach, rfl⟩
    · rintro ⟨before, addr, after, heq, hbefore, hreach, rfl⟩
      exact ⟨addr, List.find?_eq_some_iff_append.2
        ⟨decide_eq_true hreach, before, after, heq, by simpa using hbefore⟩, rfl⟩
  · obtain ⟨addr, hfind, rfl⟩ := (resolve_eq_ok_iff lookup profile hnetwork dest).1 h
    have hfound := List.find?_some hfind
    have hreach : Reachable endpoint.scheme profile addr.ip := of_decide_eq_true hfound
    refine ⟨addr, List.mem_of_find?_eq_some hfind, rfl, hreach.not_refused, ?_, hreach.2⟩
    intro v6 v4 hip hcarries
    exact EgressProfile.permitsAddress_of_carries (hip ▸ hreach.1) hcarries

namespace Sample

/-- A resolver that answers with the metadata service under an IPv6 spelling, a public address and
one of the private network. -/
def drifted : Lookup := fun _ port =>
  some [⟨.v6 ⟨0x0064, 0xff9b, 0, 0, 0, 0, 0xa9fe, 0xa9fe⟩, port⟩, ⟨.v4 ⟨8, 8, 8, 8⟩, port⟩,
    ⟨.v4 ⟨10, 0, 0, 7⟩, port⟩]

def lan : Endpoint := ⟨.http, "model.lan", 8000⟩

theorem lan_pinned :
    resolve drifted lan .privateNetwork =
        .ok ⟨.socket ⟨.v4 ⟨10, 0, 0, 7⟩, 8000⟩, "model.lan:8000", none, false, some .«private»⟩ ∧
      ∀ dest, resolve drifted lan .privateNetwork = .ok dest →
        ∃ addr ∈ candidates drifted lan, dest.address = .socket addr ∧ ¬IsRefused addr.ip :=
  ⟨by decide +kernel, fun dest h =>
    have ⟨addr, hmem, haddr, hrefused, _⟩ :=
      (egress_pinned drifted lan .privateNetwork (by decide)).2.2 dest h
    ⟨addr, hmem, haddr, hrefused⟩⟩

end Sample

end HypeLlm.Net
