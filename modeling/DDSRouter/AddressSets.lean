import DDSRouter.ParticipantAttributes
import DDSRouter.YamlVersions

/-!
# Sets of addresses

A configuration keeps its addresses in sets, which take addresses with the same
IP, port, protocol and version for one and keep the first. The external port is
not compared: two addresses that differ in it alone are used in different ways,
and one of them is lost.
-/
namespace DDSRouter.Configuration

open WeakOrder YamlReader Documents

namespace Address

/-- The values that the two enumerations are compared by. -/
def protocolRank : TransportProtocol → Nat
  | .udp => 0
  | .tcp => 1

def versionRank : IpVersion → Nat
  | .v4 => 4
  | .v6 => 6

/-- `operator <`. -/
def less (a b : Address) : Bool :=
  if a.ip < b.ip then true
  else if b.ip < a.ip then false
  else if a.port < b.port then true
  else if b.port < a.port then false
  else if protocolRank a.transportProtocol < protocolRank b.transportProtocol then true
  else if protocolRank b.transportProtocol < protocolRank a.transportProtocol then false
  else decide (versionRank a.ipVersion < versionRank b.ipVersion)

/-- `operator ==`. -/
def equal (dds : FastDds) (a b : Address) : Bool :=
  a.ip = b.ip && a.port = b.port && a.transportProtocol = b.transportProtocol && a.isValid dds = b.isValid dds

/-- The sets are ordered by `operator <`. -/
theorem less_eq_lt (a b : Address) : less a b = lt a b := by
  have hkey : ∀ c : Address, key c = toLex (c.ip, toLex (c.port.toNat,
      toLex (protocolRank c.transportProtocol, versionRank c.ipVersion))) := by
    intro c
    rfl
  simp only [lt, hkey, less, Prod.Lex.toLex_lt_toLex, UInt16.lt_iff_toNat_lt]
  rcases lt_trichotomy a.ip b.ip with hip | hip | hip
  · simp [hip]
  · rcases lt_trichotomy a.port.toNat b.port.toNat with hport | hport | hport
    · simp [hip, hport]
    · rcases lt_trichotomy (protocolRank a.transportProtocol) (protocolRank b.transportProtocol) with hp | hp | hp
      · simp [hip, hport, hp]
      · simp [hip, hport, hp]
      · simp [hip, hport, hp, hp.not_gt, hp.ne']
    · simp [hip, hport, hport.not_gt, hport.ne']
  · simp [hip, hip.not_gt, hip.ne']

theorem protocolRank_injective : Function.Injective protocolRank := by
  intro a b h
  cases a <;> cases b <;> first | rfl | cases h

theorem versionRank_injective : Function.Injective versionRank := by
  intro a b h
  cases a <;> cases b <;> first | rfl | cases h

/-- Not ordered either way: the four fields agree. -/
theorem same_iff_fields {a b : Address} : same a b = true ↔
    a.ip = b.ip ∧ a.port = b.port ∧ a.transportProtocol = b.transportProtocol ∧ a.ipVersion = b.ipVersion := by
  have hkey : key a = key b ↔
      a.ip = b.ip ∧ a.port = b.port ∧ a.transportProtocol = b.transportProtocol ∧ a.ipVersion = b.ipVersion := by
    constructor
    · intro h
      have h₁ := Prod.mk.inj (toLex.injective h)
      have h₂ := Prod.mk.inj (toLex.injective h₁.2)
      have h₃ := Prod.mk.inj (toLex.injective h₂.2)
      exact ⟨h₁.1, UInt16.toNat_inj.mp h₂.1, protocolRank_injective h₃.1, versionRank_injective h₃.2⟩
    · rintro ⟨hip, hport, hp, hv⟩
      rw [key, key, hip, hport, hp, hv]
  rw [same_iff, ← hkey]
  simp only [lt, decide_eq_false_iff_not, not_lt]
  exact ⟨fun h => le_antisymm h.2 h.1, fun h => ⟨h.ge, h.le⟩⟩

/-- One of the constructors has made the address. -/
def Constructed (dds : FastDds) (a : Address) : Prop :=
  (∃ ip port externalPort version tp, a = ofIpVersion ip port externalPort version tp) ∨
    (∃ ip port externalPort tp, a = ofIp dds ip port externalPort tp) ∨
    (∃ port externalPort version domain tp, a = ofDomainVersion dds port externalPort version domain tp) ∨
    ∃ port externalPort domain tp, a = ofDomain dds port externalPort domain tp

/-- The IP is one of the version. -/
def ipCorrect (dds : FastDds) (a : Address) : Bool :=
  match a.ipVersion with
  | .v4 => dds.isIPv4 a.ip
  | .v6 => dds.isIPv6 a.ip

/-- The fields that participants use agree, and so does `operator ==`. -/
structure Agrees (dds : FastDds) (a b : Address) : Prop where
  ip : a.ip = b.ip
  port : a.port = b.port
  externalPort : a.externalPort = b.externalPort
  transportProtocol : a.transportProtocol = b.transportProtocol
  ipVersion : a.ipVersion = b.ipVersion
  isValid : a.isValid dds = b.isValid dds
  equal : a.equal dds b = true

/-- Participants use the two addresses in the same way: where they listen, what
they announce, what they connect to, and whether they use it at all. -/
structure SameUse (dds : FastDds) (a b : Address) : Prop where
  port : a.port = b.port
  announced : listeningLocator a = listeningLocator b
  connection : serverLocator a = serverLocator b ∧ peerLocator a = peerLocator b
  isValid : a.isValid dds = b.isValid dds

/-- Of two addresses in TCP the external ports agree; of two in UDP, which may
not have one of their own, both have or neither has, unless their IP is wrong. -/
def ExternalPortsAgree (dds : FastDds) (a b : Address) : Prop :=
  if a.isTcp then a.externalPort = b.externalPort
  else a.ipCorrect dds = true → (a.externalPort = a.port ↔ b.externalPort = b.port)

variable {dds : FastDds} {a b c : Address}

/-- An address without the IP of its domain has an empty one. -/
theorem unresolved_ip (h : a.Constructed dds) (hu : (a.hasDomain && !a.hasValidDomain) = true) : a.ip = "" := by
  rcases h with ⟨ip, port, ext, v, tp, rfl⟩ | ⟨ip, port, ext, tp, rfl⟩ | ⟨port, ext, v, domain, tp, rfl⟩ |
    ⟨port, ext, domain, tp, rfl⟩
  · cases hu
  · cases hu
  · simp only [ofDomainVersion, Bool.true_and, Bool.not_eq_true', Option.isSome_eq_false_iff,
      Option.isNone_iff_eq_none] at hu ⊢
    rw [hu, Option.getD_none]
  · simp only [ofDomain, Bool.true_and, Bool.not_eq_true', Option.isSome_eq_false_iff,
      Option.isNone_iff_eq_none] at hu ⊢
    rw [hu, Option.map_none, Option.getD_none]

/-- What is wrong with an address is its IP or an external port in UDP. -/
theorem isValid_eq (hempty : dds.isIPv4 "" = false ∧ dds.isIPv6 "" = false) (h : a.Constructed dds) :
    a.isValid dds = (a.ipCorrect dds && !(a.isUdp && a.port ≠ a.externalPort)) := by
  cases hu : a.hasDomain && !a.hasValidDomain with
  | true =>
    have hip : a.ipCorrect dds = false := by
      rw [ipCorrect, unresolved_ip h hu]
      cases a.ipVersion with
      | v4 => exact hempty.1
      | v6 => exact hempty.2
    rw [isValid, hu, hip]
    rfl
  | false =>
    rw [isValid, hu]
    cases hp : a.isUdp && decide (a.port ≠ a.externalPort) with
    | true => simp
    | false =>
      rw [ipCorrect]
      cases a.ipVersion with
      | v4 => simp
      | v6 => simp

theorem ipCorrect_of_same (h : same a b = true) : a.ipCorrect dds = b.ipCorrect dds := by
  obtain ⟨hip, -, -, hv⟩ := same_iff_fields.mp h
  rw [ipCorrect, ipCorrect, hip, hv]

theorem isValid_of_externalPort (hempty : dds.isIPv4 "" = false ∧ dds.isIPv6 "" = false) (ha : a.Constructed dds)
    (hb : b.Constructed dds) (h : same a b = true) (hext : a.externalPort = b.externalPort) :
    a.isValid dds = b.isValid dds := by
  obtain ⟨-, hport, htp, -⟩ := same_iff_fields.mp h
  rw [isValid_eq hempty ha, isValid_eq hempty hb, ipCorrect_of_same h, hport, hext, isUdp, isUdp, htp]

/-- Of two addresses that a set takes for one, everything agrees once the external ports do. -/
theorem agrees_iff (hempty : dds.isIPv4 "" = false ∧ dds.isIPv6 "" = false) (ha : a.Constructed dds)
    (hb : b.Constructed dds) (h : same a b = true) : Agrees dds a b ↔ a.externalPort = b.externalPort := by
  obtain ⟨hip, hport, htp, hv⟩ := same_iff_fields.mp h
  refine ⟨Agrees.externalPort, fun hext => ?_⟩
  have hvalid := isValid_of_externalPort hempty ha hb h hext
  exact ⟨hip, hport, hext, htp, hv, hvalid, by simp [equal, hip, hport, htp, hvalid]⟩

/-- The kind of a locator and its IP and port tell the four fields. -/
theorem same_of_sameUse (h : SameUse dds a b) : same a b = true := by
  have hkind : a.getLocatorKind = b.getLocatorKind := congrArg Locator.kind h.announced
  have hip : some a.ip = some b.ip := congrArg Locator.ip h.announced
  have hfields : a.transportProtocol = b.transportProtocol ∧ a.ipVersion = b.ipVersion := by
    unfold getLocatorKind at hkind
    cases ha : a.transportProtocol <;> cases hb : b.transportProtocol <;> cases hva : a.ipVersion <;>
      cases hvb : b.ipVersion <;> simp_all
  exact same_iff_fields.mpr ⟨Option.some.inj hip, h.port, hfields⟩

/-- The listening locator shows the external port in TCP, the validity shows in
UDP whether it is the port. -/
theorem sameUse_iff (hempty : dds.isIPv4 "" = false ∧ dds.isIPv6 "" = false) (ha : a.Constructed dds)
    (hb : b.Constructed dds) (h : same a b = true) : SameUse dds a b ↔ ExternalPortsAgree dds a b := by
  obtain ⟨hip, hport, htp, hv⟩ := same_iff_fields.mp h
  have hkind : a.getLocatorKind = b.getLocatorKind := by rw [getLocatorKind, getLocatorKind, hv, htp]
  have htcp : b.isTcp = a.isTcp := by rw [isTcp, isTcp, htp]
  have hv4 : b.isIpv4 = a.isIpv4 := by rw [isIpv4, isIpv4, hv]
  have hconnection : serverLocator a = serverLocator b ∧ peerLocator a = peerLocator b := by
    simp [serverLocator, peerLocator, hkind, hip, hport, htcp]
  unfold ExternalPortsAgree
  cases hp : a.isTcp with
  | true =>
    rw [if_pos rfl]
    constructor
    · intro huse
      have hphysical := congrArg Locator.physicalPort huse.announced
      simpa [listeningLocator, hp, htcp] using hphysical
    · intro hext
      refine ⟨hport, ?_, hconnection, isValid_of_externalPort hempty ha hb h hext⟩
      simp [listeningLocator, hkind, hip, hext, htcp, hp, hv4]
  | false =>
    have hudp : a.isUdp = true := by
      rw [isTcp, decide_eq_false_iff_not] at hp
      cases htpa : a.transportProtocol with
      | udp => rw [isUdp, htpa]; rfl
      | tcp => exact absurd htpa hp
    have hudpb : b.isUdp = true := by rw [isUdp, ← htp, ← isUdp, hudp]
    have hvalid : a.isValid dds = b.isValid dds ↔
        (a.ipCorrect dds = true → (a.externalPort = a.port ↔ b.externalPort = b.port)) := by
      rw [isValid_eq hempty ha, isValid_eq hempty hb, ← ipCorrect_of_same h, hudp, hudpb]
      cases a.ipCorrect dds with
      | false => simp
      | true =>
        simp only [Bool.true_and, ne_eq, decide_not, Bool.not_not, decide_eq_decide, true_implies,
          eq_comm (a := a.port), eq_comm (a := b.port)]
    rw [if_neg Bool.false_ne_true, ← hvalid]
    constructor
    · exact SameUse.isValid
    · intro hval
      refine ⟨hport, ?_, hconnection, hval⟩
      simp [listeningLocator, hkind, hip, hport, htcp, hp, hv4]

end Address

open Address

variable {env : Libraries}

/-- What the reader makes of an entry comes from a constructor. -/
theorem constructed_of_getAddress {yml : Yaml} {a : Address} (h : getAddress env yml = .ok a) :
    a.Constructed env.dds := by
  obtain ⟨ipVersion, -, h⟩ := bind_eq_ok h
  obtain ⟨ip, -, h⟩ := bind_eq_ok h
  obtain ⟨domain, -, h⟩ := bind_eq_ok h
  by_cases hhost : (ip.isNone && domain.isNone) = true
  · rw [if_pos hhost] at h
    cases h
  · rw [if_neg hhost] at h
    obtain ⟨port, -, h⟩ := bind_eq_ok h
    obtain ⟨externalPort, -, h⟩ := bind_eq_ok h
    obtain ⟨tp, -, h⟩ := bind_eq_ok h
    cases ip with
    | some ip =>
      cases ipVersion with
      | some v => exact .inl ⟨_, _, _, _, _, (Except.ok.inj h).symm⟩
      | none => exact .inr (.inl ⟨_, _, _, _, (Except.ok.inj h).symm⟩)
    | none =>
      cases ipVersion with
      | some v => exact .inr (.inr (.inl ⟨_, _, _, _, _, (Except.ok.inj h).symm⟩))
      | none => exact .inr (.inr (.inr ⟨_, _, _, _, (Except.ok.inj h).symm⟩))

theorem constructed_of_getList {yml : Yaml} {tag : String} {addresses : List Address}
    (h : getIn yml tag (getList (getAddress env)) = .ok addresses) : ∀ a ∈ addresses, a.Constructed env.dds := by
  intro a ha
  obtain ⟨value, -, h⟩ := bind_eq_ok (mapError_eq_ok h)
  cases value with
  | null => cases h
  | scalar text => cases h
  | map entries => cases h
  | sequence elements =>
    obtain ⟨e, -, he⟩ := exists_of_mem_read (mapError_eq_ok h) ha
    exact constructed_of_getAddress he

theorem getSet_of_getList {yml : Yaml} {tag : String} {addresses : List Address}
    (h : getIn yml tag (getList (getAddress env)) = .ok addresses) :
    getSet (getAddress env) yml tag = .ok (OrdMap.ofKeys addresses) := by
  rw [getSet, h]
  rfl

/-- A set of addresses keeps what participants do with each of those listed iff
those that it takes for one do not differ in an external port that counts. The
empty text is not an IP. -/
theorem addressSet_keeps_iff (env : Libraries)
    (hempty : env.dds.isIPv4 "" = false ∧ env.dds.isIPv6 "" = false) :
    ((∀ a, less a a = false) ∧ (∀ a b c, less a b = true → less b c = true → less a c = true) ∧
        ∀ a b c, less a c = true → less a b = true ∨ less b c = true) ∧
      (∀ a b, a.Constructed env.dds → b.Constructed env.dds → less a b = false → less b a = false →
        (Agrees env.dds a b ↔ a.externalPort = b.externalPort)) ∧
      ∀ yml tag addresses, getIn yml tag (getList (getAddress env)) = .ok addresses →
        ∃ set, getSet (getAddress env) yml tag = .ok set ∧
          ((∀ a ∈ addresses, ∃ b ∈ set.keys, SameUse env.dds a b) ↔
            ∀ a ∈ addresses, ∀ b ∈ addresses, less a b = false → less b a = false → ExternalPortsAgree env.dds a b) := by
  simp only [less_eq_lt]
  refine ⟨⟨irrefl, fun a b c hab hbc => WeakOrder.trans hab hbc, fun a b c hac => cotrans hac b⟩,
    fun a b ha hb hab hba => agrees_iff hempty ha hb (same_iff.mpr ⟨hab, hba⟩), fun yml tag addresses h => ?_⟩
  refine ⟨OrdMap.ofKeys addresses, getSet_of_getList h, ?_⟩
  have hconstructed := constructed_of_getList h
  rw [OrdMap.ofKeys_represents_iff (R := SameUse env.dds) same_of_sameUse
    (fun h => ⟨h.port.symm, h.announced.symm, ⟨h.connection.1.symm, h.connection.2.symm⟩, h.isValid.symm⟩)
    (fun h h' => ⟨h.port.trans h'.port, h.announced.trans h'.announced,
      ⟨h.connection.1.trans h'.connection.1, h.connection.2.trans h'.connection.2⟩, h.isValid.trans h'.isValid⟩)]
  refine forall₂_congr fun a ha => forall₂_congr fun b hb => ?_
  constructor
  · intro hsame hab hba
    exact (sameUse_iff hempty (hconstructed a ha) (hconstructed b hb) (same_iff.mpr ⟨hab, hba⟩)).mp
      (hsame (same_iff.mpr ⟨hab, hba⟩))
  · intro hports hsame
    obtain ⟨hab, hba⟩ := same_iff.mp hsame
    exact (sameUse_iff hempty (hconstructed a ha) (hconstructed b hb) hsame).mpr (hports hab hba)

/-- A TCP address behind a port that a gateway forwards. -/
def forwarded (externalPort : String) : Yaml :=
  .map [("ip", .scalar "127.0.0.1"), ("port", .scalar "5000"), ("external-port", .scalar externalPort),
    ("transport", .scalar "tcp")]

def forwardedAddress (externalPort : UInt16) : Address :=
  { ip := "127.0.0.1", port := 5000, externalPort := externalPort, ipVersion := .v4, transportProtocol := .tcp }

/-- One of the ports twice, and an address in UDP. -/
def oneForwarded : Yaml :=
  .map [("listening-addresses", .sequence [forwarded "5001", forwarded "5001",
    .map [("ip", .scalar "127.0.0.1"), ("port", .scalar "5000"), ("transport", .scalar "udp")]])]

def udpAddress : Address :=
  { ip := "127.0.0.1", port := 5000, externalPort := 5000, ipVersion := .v4, transportProtocol := .udp }

instance (dds : FastDds) (a b : Address) : Decidable (ExternalPortsAgree dds a b) :=
  inferInstanceAs (Decidable (if a.isTcp then a.externalPort = b.externalPort
    else a.ipCorrect dds = true → (a.externalPort = a.port ↔ b.externalPort = b.port)))

theorem addressSet_keeps_forwarded :
    ∃ set, getSet (getAddress plainLibraries) oneForwarded "listening-addresses" = .ok set ∧
      ∀ a ∈ [forwardedAddress 5001, forwardedAddress 5001, udpAddress], ∃ b ∈ set.keys, SameUse plainLibraries.dds a b := by
  obtain ⟨set, hread, hkeeps⟩ := (addressSet_keeps_iff plainLibraries ⟨rfl, rfl⟩).2.2 oneForwarded "listening-addresses"
    [forwardedAddress 5001, forwardedAddress 5001, udpAddress] (by decide)
  exact ⟨set, hread, hkeeps.mpr (by decide)⟩

/-- Two ports of the gateway lead to one port here. -/
def twoForwarded : Yaml := .map [("listening-addresses", .sequence [forwarded "5001", forwarded "5002"])]

/-- The second address is taken for the first, and its port at the gateway is never announced. -/
theorem addressSet_loses_forwarded :
    getIn twoForwarded "listening-addresses" (getList (getAddress plainLibraries)) =
        .ok [forwardedAddress 5001, forwardedAddress 5002] ∧
      getSet (getAddress plainLibraries) twoForwarded "listening-addresses" =
        .ok (OrdMap.ofKeys [forwardedAddress 5001, forwardedAddress 5002]) ∧
      (less (forwardedAddress 5001) (forwardedAddress 5002) = false ∧
        less (forwardedAddress 5002) (forwardedAddress 5001) = false ∧
        ¬ Agrees plainLibraries.dds (forwardedAddress 5001) (forwardedAddress 5002)) ∧
      ¬ ∀ a ∈ [forwardedAddress 5001, forwardedAddress 5002],
        ∃ b ∈ (OrdMap.ofKeys [forwardedAddress 5001, forwardedAddress 5002]).keys, SameUse plainLibraries.dds a b := by
  have hread : getIn twoForwarded "listening-addresses" (getList (getAddress plainLibraries)) =
      .ok [forwardedAddress 5001, forwardedAddress 5002] := by decide
  refine ⟨hread, getSet_of_getList hread, ⟨by decide, by decide, fun h => ?_⟩, fun h => ?_⟩
  · exact absurd h.externalPort (by decide)
  · obtain ⟨b, hb, huse⟩ := h (forwardedAddress 5002) (by decide)
    have hfirst : b = forwardedAddress 5001 := by
      have hkeys : (OrdMap.ofKeys [forwardedAddress 5001, forwardedAddress 5002]).keys = [forwardedAddress 5001] := by
        decide
      rw [hkeys] at hb
      exact List.mem_singleton.mp hb
    rw [hfirst] at huse
    exact absurd huse.announced (by decide)

end DDSRouter.Configuration
