import DDSRouter.Types

/-!
# Network addresses

Addresses and the addresses of a discovery server, with the comparison
operators that the sets of a configuration are ordered by. Whether a text is an
IP, what a domain name resolves to and how a guid prefix is read and printed are
left to Fast DDS: these functions are parameters.
-/
namespace DDSRouter.Configuration

open WeakOrder

inductive IpVersion where
  | v4 | v6
  deriving DecidableEq, Repr

inductive TransportProtocol where
  | udp | tcp
  deriving DecidableEq, Repr

inductive LocatorKind where
  | udpv4 | udpv6 | tcpv4 | tcpv6
  deriving DecidableEq, Repr

/-- What addresses and configurations use of Fast DDS. The two lists of
`resolveNameDNS` are the IPv4 and the IPv6 addresses of the domain in the order of
their sets; `wanAddress` is what `get_WAN_address` returns after `set_WAN_address`. -/
structure FastDds where
  isIPv4 : String → Bool
  isIPv6 : String → Bool
  resolveNameDNS : String → List String × List String
  wanAddress : String → String
  readGuidPrefix : String → GuidPrefix
  guidPrefixStr : GuidPrefix → String
  /-- The version that an address has in memory when no constructor has set it. -/
  unsetIpVersion : IpVersion

structure Address where
  ip : String
  domain : String := ""
  hasDomain : Bool := false
  hasValidDomain : Bool := false
  port : UInt16
  externalPort : UInt16
  ipVersion : IpVersion
  transportProtocol : TransportProtocol
  deriving DecidableEq, Repr

namespace Address

def defaultPort : UInt16 := 11666

def defaultTransportProtocol : TransportProtocol := .udp

/-- With an IP and a version. -/
def ofIpVersion (ip : String) (port externalPort : UInt16) (ipVersion : IpVersion) (tp : TransportProtocol) :
    Address :=
  { ip := ip, port := port, externalPort := externalPort, ipVersion := ipVersion, transportProtocol := tp }

/-- With an IP and no version, the version that the text has. -/
def ofIp (dds : FastDds) (ip : String) (port externalPort : UInt16) (tp : TransportProtocol) : Address :=
  { ip := ip, port := port, externalPort := externalPort, transportProtocol := tp
    ipVersion := if dds.isIPv6 ip then .v6 else .v4 }

/-- With a domain and a version, the first IP of that version. -/
def ofDomainVersion (dds : FastDds) (port externalPort : UInt16) (ipVersion : IpVersion) (domain : String)
    (tp : TransportProtocol) : Address :=
  let found := match ipVersion with
    | .v4 => (dds.resolveNameDNS domain).1.head?
    | .v6 => (dds.resolveNameDNS domain).2.head?
  { ip := found.getD "", domain := domain, hasDomain := true, hasValidDomain := found.isSome, port := port
    externalPort := externalPort, ipVersion := ipVersion, transportProtocol := tp }

/-- With a domain alone, the first IPv4 or else the first IPv6. -/
def ofDomain (dds : FastDds) (port externalPort : UInt16) (domain : String) (tp : TransportProtocol) : Address :=
  let found := match dds.resolveNameDNS domain with
    | (ip :: _, _) => some (ip, IpVersion.v4)
    | ([], ip :: _) => some (ip, IpVersion.v6)
    | ([], []) => none
  { ip := (found.map Prod.fst).getD "", domain := domain, hasDomain := true, hasValidDomain := found.isSome
    port := port, externalPort := externalPort, ipVersion := (found.map Prod.snd).getD dds.unsetIpVersion
    transportProtocol := tp }

def isUdp (a : Address) : Bool := a.transportProtocol = .udp

def isTcp (a : Address) : Bool := a.transportProtocol = .tcp

def isIpv4 (a : Address) : Bool := a.ipVersion = .v4

def getLocatorKind (a : Address) : LocatorKind :=
  match a.ipVersion, a.transportProtocol with
  | .v4, .udp => .udpv4
  | .v4, .tcp => .tcpv4
  | .v6, .udp => .udpv6
  | .v6, .tcp => .tcpv6

/-- A domain must have been found, the external port is for TCP only, and the IP is one
of its version. -/
def isValid (dds : FastDds) (a : Address) : Bool :=
  if a.hasDomain && !a.hasValidDomain then false
  else if a.isUdp && a.port ≠ a.externalPort then false
  else
    match a.ipVersion with
    | .v4 => dds.isIPv4 a.ip
    | .v6 => dds.isIPv6 a.ip

/-- IP, port, protocol and version, in the order in which `operator <` compares them. -/
def key (a : Address) : String ×ₗ Nat ×ₗ Nat ×ₗ Nat :=
  let protocol := match a.transportProtocol with
    | .udp => 0
    | .tcp => 1
  let version := match a.ipVersion with
    | .v4 => 4
    | .v6 => 6
  toLex (a.ip, toLex (a.port.toNat, toLex (protocol, version)))

instance : WeakOrder Address := ofKey key

/-- The stream operator. -/
def text (a : Address) : String :=
  "\x7b" ++ (if a.hasDomain then a.domain ++ "(" ++ a.ip ++ ");" else a.ip ++ ";") ++ toString a.port.toNat ++ ";" ++
    if a.isUdp then "udp\x7d" else "tcp\x7d"

end Address

/-- `std::set<Address>`. -/
abbrev AddressSet := OrdMap Address Unit

/-- `GuidPrefix::is_valid`: any but the unknown one. -/
def isValidGuidPrefix (g : GuidPrefix) : Bool := g ≠ 0

structure DiscoveryServerConnectionAddress where
  discoveryServerGuidPrefix : GuidPrefix
  addresses : AddressSet

namespace DiscoveryServerConnectionAddress

/-- One valid address is enough. -/
def isValid (dds : FastDds) (c : DiscoveryServerConnectionAddress) : Bool :=
  isValidGuidPrefix c.discoveryServerGuidPrefix && c.addresses.keys.any fun a => a.isValid dds

/-- The guid prefix, and then the addresses one by one. -/
instance : WeakOrder DiscoveryServerConnectionAddress :=
  ofKey fun c => toLex (c.discoveryServerGuidPrefix.toNat, c.addresses.keys.map Address.key)

def text (dds : FastDds) (c : DiscoveryServerConnectionAddress) : String :=
  "\x7b\x7b" ++ dds.guidPrefixStr c.discoveryServerGuidPrefix ++ "\x7d[" ++
    String.join (c.addresses.keys.map fun a => a.text ++ ",") ++ "]\x7d"

end DiscoveryServerConnectionAddress

end DDSRouter.Configuration
