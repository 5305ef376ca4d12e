import DDSRouter.ParticipantConfiguration

/-!
# Attributes of the participants of discovery servers and initial peers

The attributes that an RTPS participant is created with: the transports it may
use, the locators it listens on and connects to, and TLS for the TCP transports.
The loop over the listening addresses is the same text in both participants, and
so are the transports added after the loops. The search for a transport with the
same WAN address never moves its iterator; it is run here with a number of rounds
that may be used up.
-/
namespace DDSRouter.Configuration

/-- A run that returns, that throws an exception, or that has not ended in the rounds it
was given. A `ConfigurationException` is its message. -/
inductive Outcome (ε α : Type) where
  | returns (a : α)
  | throws (e : ε)
  | running
  deriving DecidableEq, Repr

namespace Outcome

variable {ε ε' α β : Type}

def bind (x : Outcome ε α) (f : α → Outcome ε β) : Outcome ε β :=
  match x with
  | returns a => f a
  | throws e => throws e
  | running => running

instance : Monad (Outcome ε) where
  pure := returns
  bind := bind

/-- The same run, seen from where the exception is of another class. -/
def mapError (f : ε → ε') : Outcome ε α → Outcome ε' α
  | returns a => returns a
  | throws e => throws (f e)
  | running => running

@[simp] theorem returns_bind (a : α) (f : α → Outcome ε β) : (returns a >>= f) = f a := rfl

@[simp] theorem throws_bind (e : ε) (f : α → Outcome ε β) : ((throws e : Outcome ε α) >>= f) = throws e := rfl

@[simp] theorem running_bind (f : α → Outcome ε β) : ((running : Outcome ε α) >>= f) = running := rfl

theorem bind_eq_returns {x : Outcome ε α} {f : α → Outcome ε β} {b : β} :
    (x >>= f) = returns b ↔ ∃ a, x = returns a ∧ f a = returns b := by
  cases x with
  | returns a => simp
  | throws msg =>
    constructor
    · intro h
      cases h
    · rintro ⟨a, h, -⟩
      cases h
  | running =>
    constructor
    · intro h
      cases h
    · rintro ⟨a, h, -⟩
      cases h

theorem bind_eq_throws {x : Outcome ε α} {f : α → Outcome ε β} {e : ε} :
    (x >>= f) = throws e ↔ x = throws e ∨ ∃ a, x = returns a ∧ f a = throws e := by
  cases x with
  | returns a => simp
  | throws m =>
    constructor
    · intro h
      exact .inl (by cases h; rfl)
    · rintro (h | ⟨a, h, -⟩)
      · cases h
        rfl
      · cases h
  | running =>
    constructor
    · intro h
      cases h
    · rintro (h | ⟨a, h, -⟩)
      · cases h
      · cases h

end Outcome

open Outcome

/-! ### Transports and TLS -/

inductive TLSOption where
  | defaultWorkarounds | singleDhUse | noSslv2
  deriving DecidableEq, Repr

inductive TLSVerifyMode where
  | verifyNone | verifyPeer | verifyFailIfNoPeerCert
  deriving DecidableEq, Repr

/-- The TLS part of a TCP transport, with the options and modes that were added. -/
structure TLSConfig where
  password : String := ""
  privateKeyFile : String := ""
  certChainFile : String := ""
  tmpDhFile : String := ""
  verifyFile : String := ""
  serverName : String := ""
  options : List TLSOption := []
  verifyMode : List TLSVerifyMode := []
  deriving DecidableEq, Repr

structure TCPTransport where
  listeningPorts : List UInt16 := []
  applySecurity : Bool := false
  tlsConfig : TLSConfig := {}
  deriving DecidableEq, Repr

/-- A transport descriptor; the WAN address of a TCPv4 transport is unset at first. -/
inductive Transport where
  | udpv4
  | udpv6
  | tcpv4 (wanAddr : String) (d : TCPTransport)
  | tcpv6 (d : TCPTransport)
  deriving DecidableEq, Repr

namespace Transport

def kind : Transport → LocatorKind
  | udpv4 => .udpv4
  | udpv6 => .udpv6
  | tcpv4 _ _ => .tcpv4
  | tcpv6 _ => .tcpv6

/-- The part that TCP transports share. -/
def tcp? : Transport → Option TCPTransport
  | tcpv4 _ d => some d
  | tcpv6 d => some d
  | _ => none

end Transport

def unsetWan : String := "0.0.0.0"

namespace TlsConfiguration

def enableTlsClient (c : TlsConfiguration) (d : TCPTransport) (onlyClient : Bool) : TCPTransport :=
  let mode := if onlyClient && c.verifyPeer then [TLSVerifyMode.verifyFailIfNoPeerCert] else []
  { d with tlsConfig := { d.tlsConfig with
    verifyMode := d.tlsConfig.verifyMode ++ mode
    verifyFile := c.certificateAuthorityFile
    serverName := c.sniServerName } }

def enableTlsServer (c : TlsConfiguration) (d : TCPTransport) : TCPTransport :=
  { d with tlsConfig := { d.tlsConfig with
    password := c.privateKeyFilePassword
    privateKeyFile := c.privateKeyFile
    certChainFile := c.certificateChainFile
    tmpDhFile := c.dhParamsFile } }

/-- What `enable_tls` sets for clients and servers alike. -/
def applyTls (c : TlsConfiguration) (d : TCPTransport) : TCPTransport :=
  { d with
    applySecurity := true
    tlsConfig := { d.tlsConfig with
      options := d.tlsConfig.options ++ [.defaultWorkarounds, .singleDhUse, .noSslv2]
      verifyMode := d.tlsConfig.verifyMode ++ [if c.verifyPeer then .verifyPeer else .verifyNone] } }

def enableTls (c : TlsConfiguration) (d : TCPTransport) (client : Bool) : Outcome String TCPTransport :=
  if client then
    if !c.compatible .client then throws "TLS Configuration expected a Client configuration."
    else returns (c.enableTlsClient (c.applyTls d) true)
  else if !c.compatible .server then throws "TLS Configuration expected a Server configuration."
  else
    let d := c.enableTlsServer (c.applyTls d)
    returns (if c.compatible .client then c.enableTlsClient d false else d)

/-- The call, made where TLS is active. -/
def secure (c : TlsConfiguration) (d : TCPTransport) (client : Bool) : Outcome String TCPTransport :=
  if c.isActive then c.enableTls d client else returns d

end TlsConfiguration

/-! ### Attributes -/

structure Locator where
  kind : LocatorKind
  ip : Option String := none
  wan : Option String := none
  physicalPort : UInt16 := 0
  logicalPort : UInt16 := 0
  deriving DecidableEq, Repr

structure RemoteServer where
  guidPrefix : GuidPrefix
  locator : Locator
  deriving DecidableEq, Repr

inductive DiscoveryProtocol where
  | simple | server | superClient
  deriving DecidableEq, Repr

structure Params where
  name : String
  useBuiltinTransports : Bool := true
  userTransports : List Transport := []
  metatrafficUnicastLocatorList : List Locator := []
  defaultUnicastLocatorList : List Locator := []
  initialPeersList : List Locator := []
  discoveryServers : List RemoteServer := []
  discoveryProtocol : DiscoveryProtocol := .simple
  guidPrefix : GuidPrefix := 0
  deriving DecidableEq, Repr

/-- The variables that are needed after the loops. -/
structure Flags where
  hasListeningAddresses : Bool := false
  hasListeningTcpIpv4 : Bool := false
  hasListeningTcpIpv6 : Bool := false
  hasConnectionTcpIpv4 : Bool := false
  hasConnectionTcpIpv6 : Bool := false
  hasConnectionUdpIpv4 : Bool := false
  hasConnectionUdpIpv6 : Bool := false
  hasUdpIpv4 : Bool := false
  hasUdpIpv6 : Bool := false
  deriving DecidableEq, Repr

/-- `CommonParticipant::get_participant_attributes_`, and the builtin transports
switched off. -/
def commonAttributes (id : ParticipantId) : Params := { name := id.id, useBuiltinTransports := false }

/-! The loop over the listening addresses. -/

/-- The inner loop: it looks at the first transport, and if that is not the one it looks
for, looks at it again. -/
def searchWan (ip : String) :
    Nat → List Transport → Outcome String (Option (String × TCPTransport) × List Transport)
  | 0, _ => running
  | _ + 1, [] => returns (none, [])
  | n + 1, .tcpv4 wan d :: rest =>
    if ip = wan then returns (some (wan, d), rest) else searchWan ip n (.tcpv4 wan d :: rest)
  | n + 1, t :: rest => searchWan ip n (t :: rest)

def listenTransports (dds : FastDds) (tls : TlsConfiguration) (fuel : Nat) (ts : List Transport) (a : Address) :
    Outcome String (List Transport) :=
  if a.isTcp then
    if a.isIpv4 then do
      let (found, rest) ← searchWan a.ip fuel ts
      match found with
      | some (wan, d) =>
        -- the transport goes to the end of the list
        returns (rest ++ [.tcpv4 wan { d with listeningPorts := d.listeningPorts ++ [a.port] }])
      | none =>
        let d ← tls.secure { listeningPorts := [a.port] } false
        returns (rest ++ [.tcpv4 (dds.wanAddress a.ip) d])
    else do
      let d ← tls.secure { listeningPorts := [a.port] } false
      returns (ts ++ [.tcpv6 d])
  else returns ts

def Flags.listening (f : Flags) (a : Address) : Flags :=
  let f := { f with hasListeningAddresses := true }
  if a.isTcp then
    if a.isIpv4 then { f with hasListeningTcpIpv4 := true } else { f with hasListeningTcpIpv6 := true }
  else { f with hasUdpIpv4 := a.isIpv4, hasUdpIpv6 := !a.isIpv4 }

def listeningLocator (a : Address) : Locator :=
  { kind := a.getLocatorKind
    ip := some a.ip
    wan := if a.isIpv4 then some a.ip else none
    physicalPort := if a.isTcp then a.externalPort else a.port
    logicalPort := if a.isTcp then a.externalPort else 0 }

def Params.listening (p : Params) (a : Address) (ts : List Transport) : Params :=
  { p with
    userTransports := ts
    metatrafficUnicastLocatorList := p.metatrafficUnicastLocatorList ++ [listeningLocator a]
    defaultUnicastLocatorList := p.defaultUnicastLocatorList ++ [listeningLocator a] }

@[simp] theorem Params.listening_userTransports (p : Params) (a : Address) (ts : List Transport) :
    (p.listening a ts).userTransports = ts := rfl

/-- The loop, over the flags and the attributes. -/
def listenAll (dds : FastDds) (tls : TlsConfiguration) (fuel : Nat) :
    List Address → Flags → Params → Outcome String (Flags × Params)
  | [], f, p => returns (f, p)
  | a :: rest, f, p =>
    if !a.isValid dds then listenAll dds tls fuel rest f p
    else do
      let ts ← listenTransports dds tls fuel p.userTransports a
      listenAll dds tls fuel rest (f.listening a) (p.listening a ts)

/-! The loops over the connection addresses. -/

def Flags.connection (f : Flags) (a : Address) : Flags :=
  if a.isTcp then { f with hasConnectionTcpIpv4 := a.isIpv4, hasConnectionTcpIpv6 := !a.isIpv4 }
  else
    { f with
      hasConnectionUdpIpv4 := a.isIpv4
      hasConnectionUdpIpv6 := !a.isIpv4
      hasUdpIpv4 := a.isIpv4
      hasUdpIpv6 := !a.isIpv4 }

def serverLocator (a : Address) : Locator :=
  { kind := a.getLocatorKind, ip := some a.ip, physicalPort := a.port, logicalPort := a.port }

def peerLocator (a : Address) : Locator :=
  { kind := a.getLocatorKind, ip := some a.ip, physicalPort := a.port, logicalPort := if a.isTcp then a.port else 0 }

/-- The servers that are tried, each with one address; what is not valid is left out. -/
def DiscoveryServerParticipantConfiguration.servers (dds : FastDds) (c : DiscoveryServerParticipantConfiguration) :
    List (GuidPrefix × Address) :=
  (c.connectionAddresses.keys.filter fun s => s.isValid dds).flatMap fun s =>
    (s.addresses.keys.filter fun a => a.isValid dds).map fun a => (s.discoveryServerGuidPrefix, a)

def InitialPeersParticipantConfiguration.peers (dds : FastDds) (c : InitialPeersParticipantConfiguration) :
    List Address := c.connectionAddresses.keys.filter fun a => a.isValid dds

/-! The transports that are added after the loops. -/

/-- A TCP transport for connections, where it is needed. -/
def connectionTransport (tls : TlsConfiguration) (needed : Bool) (descriptor : TCPTransport → Transport)
    (ts : List Transport) : Outcome String (List Transport) :=
  if needed then do
    let d ← tls.secure {} true
    returns (ts ++ [descriptor d])
  else returns ts

def connectionTransports (tls : TlsConfiguration) (f : Flags) (ts : List Transport) :
    Outcome String (List Transport) := do
  let ts ← connectionTransport tls (f.hasConnectionTcpIpv4 && !f.hasListeningTcpIpv4) (.tcpv4 unsetWan) ts
  let ts ← connectionTransport tls (f.hasConnectionTcpIpv6 && !f.hasListeningTcpIpv6) .tcpv6 ts
  returns (ts ++ (if f.hasUdpIpv4 then [.udpv4] else []) ++ if f.hasUdpIpv6 then [.udpv6] else [])

/-- `DiscoveryServerParticipant::get_participant_attributes_`. -/
def DiscoveryServerParticipantConfiguration.getParticipantAttributes (dds : FastDds) (fuel : Nat)
    (c : DiscoveryServerParticipantConfiguration) : Outcome String Params := do
  let (f, p) ← listenAll dds c.tlsConfiguration fuel c.listeningAddresses.keys {} (commonAttributes c.id)
  let f := (c.servers dds).foldl (fun f s => f.connection s.2) f
  let ts ← connectionTransports c.tlsConfiguration f p.userTransports
  returns { p with
    discoveryServers := (c.servers dds).map fun s => ⟨s.1, serverLocator s.2⟩
    discoveryProtocol := if f.hasListeningAddresses then .server else .superClient
    guidPrefix := c.discoveryServerGuidPrefix
    userTransports := ts }

/-- `InitialPeersParticipant::get_participant_attributes_`. Without listening addresses
an empty locator stands for each UDP version. -/
def InitialPeersParticipantConfiguration.getParticipantAttributes (dds : FastDds) (fuel : Nat)
    (c : InitialPeersParticipantConfiguration) : Outcome String Params := do
  let (f, p) ← listenAll dds c.tlsConfiguration fuel c.listeningAddresses.keys {} (commonAttributes c.id)
  let f := (c.peers dds).foldl Flags.connection f
  let ts ← connectionTransports c.tlsConfiguration f p.userTransports
  let extra : List Locator :=
    if !f.hasListeningAddresses then
      (if f.hasConnectionUdpIpv4 then [{ kind := .udpv4 }] else []) ++
        if f.hasConnectionUdpIpv6 then [{ kind := .udpv6 }] else []
    else []
  returns { p with
    initialPeersList := (c.peers dds).map peerLocator
    userTransports := ts
    metatrafficUnicastLocatorList := p.metatrafficUnicastLocatorList ++ extra }

/-! ### What the functions do -/

section Spec

variable {dds : FastDds} {tls : TlsConfiguration}

theorem searchWan_cases {ip : String} {n : Nat} {ts : List Transport} {r : Option (String × TCPTransport) × List Transport}
    (h : searchWan ip n ts = returns r) :
    (ts = [] ∧ r = (none, [])) ∨ ∃ d rest, ts = .tcpv4 ip d :: rest ∧ r = (some (ip, d), rest) := by
  induction n with
  | zero => cases h
  | succ n ih =>
    match ts with
    | [] =>
      cases h
      exact .inl ⟨rfl, rfl⟩
    | .tcpv4 wan d :: rest =>
      simp only [searchWan] at h
      split at h
      · rename_i hip
        cases h
        exact .inr ⟨d, rest, by rw [hip], by rw [hip]⟩
      · exact ih h
    | .udpv4 :: rest => exact ih h
    | .udpv6 :: rest => exact ih h
    | .tcpv6 d :: rest => exact ih h

theorem searchWan_not_throws {ip : String} {n : Nat} {ts : List Transport} {msg : String} :
    searchWan ip n ts ≠ throws msg := by
  induction n with
  | zero => simp [searchWan]
  | succ n ih =>
    match ts with
    | [] => simp [searchWan]
    | .tcpv4 wan d :: rest =>
      simp only [searchWan]
      split
      · simp
      · exact ih
    | .udpv4 :: rest => exact ih
    | .udpv6 :: rest => exact ih
    | .tcpv6 d :: rest => exact ih

/-- What an address does to the transports. -/
theorem listenTransports_cases {fuel : Nat} {ts ts' : List Transport} {a : Address}
    (h : listenTransports dds tls fuel ts a = returns ts') :
    (a.isTcp = false ∧ ts' = ts) ∨
    (a.isTcp = true ∧ a.isIpv4 = true ∧ ∃ d rest, ts = .tcpv4 a.ip d :: rest ∧
      ts' = rest ++ [.tcpv4 a.ip { d with listeningPorts := d.listeningPorts ++ [a.port] }]) ∨
    (a.isTcp = true ∧ a.isIpv4 = true ∧ ts = [] ∧ ∃ d, tls.secure { listeningPorts := [a.port] } false = returns d ∧
      ts' = [.tcpv4 (dds.wanAddress a.ip) d]) ∨
    (a.isTcp = true ∧ a.isIpv4 = false ∧ ∃ d, tls.secure { listeningPorts := [a.port] } false = returns d ∧
      ts' = ts ++ [.tcpv6 d]) := by
  unfold listenTransports at h
  cases htcp : a.isTcp with
  | false =>
    simp only [htcp, Bool.false_eq_true, if_false, returns.injEq] at h
    exact .inl ⟨rfl, h.symm⟩
  | true =>
    refine .inr ?_
    cases hv4 : a.isIpv4 with
    | true =>
      simp only [htcp, hv4, if_true] at h
      obtain ⟨r, hsearch, hts⟩ := bind_eq_returns.mp h
      rcases searchWan_cases hsearch with ⟨hnil, rfl⟩ | ⟨d, rest, hcons, rfl⟩
      · obtain ⟨d, hd, hts⟩ := bind_eq_returns.mp hts
        cases hts
        exact .inr (.inl ⟨rfl, rfl, hnil, d, hd, rfl⟩)
      · cases hts
        exact .inl ⟨rfl, rfl, d, rest, hcons, rfl⟩
    | false =>
      simp only [htcp, hv4, if_true, Bool.false_eq_true, if_false] at h
      obtain ⟨d, hd, h⟩ := bind_eq_returns.mp h
      cases h
      exact .inr (.inr ⟨rfl, rfl, d, hd, rfl⟩)

/-- What holds before the loop over the listening addresses and is kept by each address
holds after it. -/
theorem listenAll_history {J : List Address → Flags → Params → Prop} {fuel : Nat}
    (hstep : ∀ done a f p ts, J done f p → listenTransports dds tls fuel p.userTransports a = returns ts →
      J (done ++ [a]) (f.listening a) (p.listening a ts))
    {as : List Address} {f f' : Flags} {p p' : Params} (hv : ∀ a ∈ as, a.isValid dds = true) (hJ : J [] f p)
    (h : listenAll dds tls fuel as f p = returns (f', p')) : J as f' p' := by
  suffices hall : ∀ done, J done f p → J (done ++ as) f' p' from hall [] hJ
  clear hJ
  induction as generalizing f p with
  | nil =>
    cases h
    intro done hJ
    simpa using hJ
  | cons a as ih =>
    simp only [listenAll, hv a List.mem_cons_self, Bool.not_true, Bool.false_eq_true, if_false] at h
    obtain ⟨ts, hts, h⟩ := bind_eq_returns.mp h
    intro done hJ
    have hrest := ih (fun b hb => hv b (List.mem_cons_of_mem a hb)) h (done ++ [a]) (hstep done a f p ts hJ hts)
    simpa using hrest

theorem connectionTransport_cases {needed : Bool} {descriptor : TCPTransport → Transport} {ts ts' : List Transport}
    (h : connectionTransport tls needed descriptor ts = returns ts') :
    ∃ d, (needed = true → tls.secure {} true = returns d) ∧ ts' = ts ++ if needed then [descriptor d] else [] := by
  cases needed with
  | false =>
    cases h
    exact ⟨{}, by simp⟩
  | true =>
    obtain ⟨d, hd, h⟩ := bind_eq_returns.mp h
    cases h
    exact ⟨d, fun _ => hd, rfl⟩

/-- The transports after the loops: one TCP transport for each version that is connected
to and not listened on, and then those of UDP. -/
theorem connectionTransports_cases {f : Flags} {ts ts' : List Transport}
    (h : connectionTransports tls f ts = returns ts') :
    ∃ d₄ d₆, ((f.hasConnectionTcpIpv4 && !f.hasListeningTcpIpv4) = true → tls.secure {} true = returns d₄) ∧
      ((f.hasConnectionTcpIpv6 && !f.hasListeningTcpIpv6) = true → tls.secure {} true = returns d₆) ∧
      ts' = ts ++ (if f.hasConnectionTcpIpv4 && !f.hasListeningTcpIpv4 then [.tcpv4 unsetWan d₄] else []) ++
        (if f.hasConnectionTcpIpv6 && !f.hasListeningTcpIpv6 then [.tcpv6 d₆] else []) ++
        (if f.hasUdpIpv4 then [.udpv4] else []) ++ if f.hasUdpIpv6 then [.udpv6] else [] := by
  unfold connectionTransports at h
  obtain ⟨us, h₄, h⟩ := bind_eq_returns.mp h
  obtain ⟨vs, h₆, h⟩ := bind_eq_returns.mp h
  obtain ⟨d₄, hd₄, rfl⟩ := connectionTransport_cases h₄
  obtain ⟨d₆, hd₆, rfl⟩ := connectionTransport_cases h₆
  cases h
  exact ⟨d₄, d₆, hd₄, hd₆, rfl⟩

/-- The TLS configuration can be used for what the flag says, or is not used. -/
theorem secure_of_compatible (client : Bool) (h : tls.isActive = true →
    tls.compatible (if client then .client else .server) = true) (d : TCPTransport) :
    ∃ d', tls.secure d client = returns d' := by
  unfold TlsConfiguration.secure TlsConfiguration.enableTls
  split
  · rename_i hact
    have hc := h hact
    cases client with
    | false => simp_all
    | true => simp_all
  · exact ⟨d, rfl⟩

theorem connectionTransports_returns {f : Flags}
    (h : (f.hasConnectionTcpIpv4 || f.hasConnectionTcpIpv6) = true → tls.isActive = true → tls.compatible .client = true)
    (ts : List Transport) : ∃ ts', connectionTransports tls f ts = returns ts' := by
  have hone : ∀ needed descriptor us, (needed = true → (f.hasConnectionTcpIpv4 || f.hasConnectionTcpIpv6) = true) →
      ∃ us', connectionTransport tls needed descriptor us = returns us' := by
    intro needed descriptor us hneeded
    cases needed with
    | false => exact ⟨us, rfl⟩
    | true =>
      obtain ⟨d, hd⟩ := secure_of_compatible true (h (hneeded rfl)) {}
      exact ⟨us ++ [descriptor d], by simp [connectionTransport, hd]⟩
  obtain ⟨us, hus⟩ := hone (f.hasConnectionTcpIpv4 && !f.hasListeningTcpIpv4) (.tcpv4 unsetWan) ts (by simp_all)
  obtain ⟨vs, hvs⟩ := hone (f.hasConnectionTcpIpv6 && !f.hasListeningTcpIpv6) .tcpv6 us (by simp_all)
  rw [connectionTransports, hus, returns_bind, hvs, returns_bind]
  exact ⟨_, rfl⟩

/-- Both functions are a loop over the listening addresses, the flags of the connection
addresses, and the transports added after that. -/
theorem DiscoveryServerParticipantConfiguration.attributes_cases {c : DiscoveryServerParticipantConfiguration}
    {fuel : Nat} {p : Params} (h : c.getParticipantAttributes dds fuel = returns p) :
    ∃ f p₀, listenAll dds c.tlsConfiguration fuel c.listeningAddresses.keys {} (commonAttributes c.id) =
        returns (f, p₀) ∧
      connectionTransports c.tlsConfiguration (((c.servers dds).map Prod.snd).foldl Flags.connection f)
        p₀.userTransports = returns p.userTransports ∧
      p.metatrafficUnicastLocatorList = p₀.metatrafficUnicastLocatorList ∧
      p.defaultUnicastLocatorList = p₀.defaultUnicastLocatorList ∧
      p.initialPeersList = p₀.initialPeersList ∧
      p.discoveryServers = (c.servers dds).map fun s => ⟨s.1, serverLocator s.2⟩ := by
  unfold getParticipantAttributes at h
  obtain ⟨⟨f, p₀⟩, hl, h⟩ := bind_eq_returns.mp h
  obtain ⟨ts, hts, h⟩ := bind_eq_returns.mp h
  cases h
  rw [← List.foldl_map] at hts
  exact ⟨f, p₀, hl, hts, rfl, rfl, rfl, rfl⟩

theorem InitialPeersParticipantConfiguration.attributes_cases {c : InitialPeersParticipantConfiguration}
    {fuel : Nat} {p : Params} (h : c.getParticipantAttributes dds fuel = returns p) :
    ∃ f p₀, listenAll dds c.tlsConfiguration fuel c.listeningAddresses.keys {} (commonAttributes c.id) =
        returns (f, p₀) ∧
      connectionTransports c.tlsConfiguration ((c.peers dds).foldl Flags.connection f)
        p₀.userTransports = returns p.userTransports ∧
      p.metatrafficUnicastLocatorList = p₀.metatrafficUnicastLocatorList ++
        (if !((c.peers dds).foldl Flags.connection f).hasListeningAddresses then
          (if ((c.peers dds).foldl Flags.connection f).hasConnectionUdpIpv4 then [{ kind := .udpv4 }] else []) ++
            if ((c.peers dds).foldl Flags.connection f).hasConnectionUdpIpv6 then [{ kind := .udpv6 }] else []
        else []) ∧
      p.defaultUnicastLocatorList = p₀.defaultUnicastLocatorList ∧
      p.initialPeersList = (c.peers dds).map peerLocator ∧
      p.discoveryServers = p₀.discoveryServers := by
  unfold getParticipantAttributes at h
  obtain ⟨⟨f, p₀⟩, hl, h⟩ := bind_eq_returns.mp h
  obtain ⟨ts, hts, h⟩ := bind_eq_returns.mp h
  cases h
  exact ⟨f, p₀, hl, hts, rfl, rfl, rfl, rfl⟩

end Spec

end DDSRouter.Configuration
