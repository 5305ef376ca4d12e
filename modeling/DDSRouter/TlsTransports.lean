import DDSRouter.ListeningTransports

/-!
# TLS on every TCP transport

The validator asks for a server configuration where there are listening
addresses and for a client configuration where there are connection addresses.
The transports of the first kind are secured as servers when they are created
and keep that while ports are added; those added for connections alone are
secured as clients.
-/
namespace DDSRouter.Configuration

open Outcome

variable {dds : FastDds} {tls : TlsConfiguration}

/-- The fields of a server. -/
structure ServerFields (tls : TlsConfiguration) (d : TCPTransport) : Prop where
  privateKey : d.tlsConfig.privateKeyFile = tls.privateKeyFile
  password : d.tlsConfig.password = tls.privateKeyFilePassword
  certChain : d.tlsConfig.certChainFile = tls.certificateChainFile
  dh : d.tlsConfig.tmpDhFile = tls.dhParamsFile

/-- The fields of a client. -/
structure ClientFields (tls : TlsConfiguration) (d : TCPTransport) : Prop where
  authority : d.tlsConfig.verifyFile = tls.certificateAuthorityFile
  serverName : d.tlsConfig.serverName = tls.sniServerName

/-- A transport that is listened on is secured as a server, and as a client too where the
configuration is for both; one for connections alone as a client that checks its peer
where this is asked for. -/
structure Secured (tls : TlsConfiguration) (d : TCPTransport) : Prop where
  security : d.applySecurity = true
  server : d.listeningPorts ≠ [] → ServerFields tls d
  both : d.listeningPorts ≠ [] → tls.kind = .both → ClientFields tls d
  client : d.listeningPorts = [] → ClientFields tls d ∧
    (.verifyFailIfNoPeerCert ∈ d.tlsConfig.verifyMode ↔ tls.verifyPeer = true)

theorem secured_server (ha : tls.isActive = true) {ports : List UInt16} (hp : ports ≠ []) {d : TCPTransport}
    (h : tls.secure { listeningPorts := ports } false = returns d) : Secured tls d := by
  have hports := secure_ports h
  have hempty : d.listeningPorts ≠ [] := by
    rw [hports]
    exact hp
  simp only [TlsConfiguration.secure, ha, if_true, TlsConfiguration.enableTls, Bool.false_eq_true, if_false] at h
  split at h
  · cases h
  · cases h
    by_cases hboth : tls.compatible .client = true
    · rw [if_pos hboth] at hempty ⊢
      exact ⟨rfl, fun _ => ⟨rfl, rfl, rfl, rfl⟩, fun _ _ => ⟨rfl, rfl⟩, fun hnil => absurd hnil hempty⟩
    · rw [if_neg hboth] at hempty ⊢
      refine ⟨rfl, fun _ => ⟨rfl, rfl, rfl, rfl⟩, fun _ hk => ?_, fun hnil => absurd hnil hempty⟩
      exact absurd (by simp [TlsConfiguration.compatible, hk]) hboth

theorem secured_client (ha : tls.isActive = true) {d : TCPTransport} (h : tls.secure {} true = returns d) :
    Secured tls d := by
  have hports : d.listeningPorts = [] := secure_ports h
  simp only [TlsConfiguration.secure, ha, if_true, TlsConfiguration.enableTls] at h
  split at h
  · cases h
  · cases h
    refine ⟨rfl, fun hne => absurd hports hne, fun hne => absurd hports hne, fun _ => ⟨⟨rfl, rfl⟩, ?_⟩⟩
    cases hv : tls.verifyPeer with
    | true => simp [TlsConfiguration.enableTlsClient, TlsConfiguration.applyTls, hv]
    | false => simp [TlsConfiguration.enableTlsClient, TlsConfiguration.applyTls, hv]

/-- The transports of the listening addresses have ports and are secured. -/
def AllSecured (tls : TlsConfiguration) (ts : List Transport) : Prop :=
  ∀ t ∈ ts, ∀ d, t.tcp? = some d → d.listeningPorts ≠ [] ∧ Secured tls d

theorem Secured.addPort {d : TCPTransport} (h : Secured tls d) (hp : d.listeningPorts ≠ []) (port : UInt16) :
    Secured tls { d with listeningPorts := d.listeningPorts ++ [port] } where
  security := h.security
  server _ := ⟨(h.server hp).privateKey, (h.server hp).password, (h.server hp).certChain, (h.server hp).dh⟩
  both _ hk := ⟨(h.both hp hk).authority, (h.both hp hk).serverName⟩
  client hnil := by simp at hnil

theorem allSecured_append {ts us : List Transport} :
    AllSecured tls (ts ++ us) ↔ AllSecured tls ts ∧ AllSecured tls us := List.forall_mem_append

theorem allSecured_listening (ha : tls.isActive = true) {fuel : Nat} {ts ts' : List Transport} {a : Address}
    (h : AllSecured tls ts) (hts : listenTransports dds tls fuel ts a = returns ts') : AllSecured tls ts' := by
  have hnew : ∀ {d}, tls.secure { listeningPorts := [a.port] } false = returns d →
      d.listeningPorts ≠ [] ∧ Secured tls d := by
    intro d hd
    refine ⟨?_, secured_server ha (List.cons_ne_nil _ _) hd⟩
    rw [secure_ports hd]
    exact List.cons_ne_nil _ _
  obtain ⟨-, rfl⟩ | ⟨-, -, d, rest, rfl, rfl⟩ | ⟨-, -, rfl, d, hd, rfl⟩ | ⟨-, -, d, hd, rfl⟩ :=
    listenTransports_cases hts
  · exact h
  · obtain ⟨hports, hd⟩ := h (.tcpv4 a.ip d) List.mem_cons_self d rfl
    refine allSecured_append.mpr ⟨fun t ht => h t (List.mem_cons_of_mem _ ht), fun t ht d' hd' => ?_⟩
    rw [List.mem_singleton.mp ht] at hd'
    cases hd'
    exact ⟨by simp, hd.addPort hports a.port⟩
  · intro t ht d' hd'
    rw [List.mem_singleton.mp ht] at hd'
    cases hd'
    exact hnew hd
  · refine allSecured_append.mpr ⟨h, fun t ht d' hd' => ?_⟩
    rw [List.mem_singleton.mp ht] at hd'
    cases hd'
    exact hnew hd

theorem allSecured_listenAll (ha : tls.isActive = true) {fuel : Nat} {as : List Address} {id : ParticipantId} {f : Flags}
    {p : Params} (hv : ∀ a ∈ as, a.isValid dds = true)
    (h : listenAll dds tls fuel as {} (commonAttributes id) = returns (f, p)) : AllSecured tls p.userTransports :=
  listenAll_history (J := fun _ _ p => AllSecured tls p.userTransports)
    (fun _ _ _ _ _ hJ hts => allSecured_listening ha hJ hts) hv (fun _ ht => absurd ht List.not_mem_nil) h

/-- A TCP transport was there before, or is secured as a client. -/
theorem mem_connectionTransports {f : Flags} {ts ts' : List Transport} (hc : connectionTransports tls f ts = returns ts')
    {t : Transport} {d : TCPTransport} (ht : t ∈ ts') (hd : t.tcp? = some d) :
    t ∈ ts ∨ tls.secure {} true = returns d := by
  obtain ⟨d₄, d₆, hd₄, hd₆, rfl⟩ := connectionTransports_cases hc
  simp only [List.mem_append] at ht
  rcases ht with (((ht | ht) | ht) | ht) | ht
  · exact .inl ht
  · split at ht
    · rename_i hneeded
      rw [List.mem_singleton.mp ht] at hd
      cases hd
      exact .inr (hd₄ hneeded)
    · cases ht
  · split at ht
    · rename_i hneeded
      rw [List.mem_singleton.mp ht] at hd
      cases hd
      exact .inr (hd₆ hneeded)
    · cases ht
  · split at ht
    · rw [List.mem_singleton.mp ht] at hd
      cases hd
    · cases ht
  · split at ht
    · rw [List.mem_singleton.mp ht] at hd
      cases hd
    · cases ht

theorem secured_connectionTransports (ha : tls.isActive = true) {f : Flags} {ts ts' : List Transport}
    (h : AllSecured tls ts) (hc : connectionTransports tls f ts = returns ts') :
    ∀ t ∈ ts', ∀ d, t.tcp? = some d → Secured tls d := by
  intro t ht d hd
  rcases mem_connectionTransports hc ht hd with ht | hsecure
  · exact (h t ht d hd).2
  · exact secured_client ha hsecure

/-! ### Nothing is thrown -/

theorem listenTransports_not_throws (hs : ServesListening tls) {fuel : Nat} {ts : List Transport} {a : Address}
    {msg : String} : listenTransports dds tls fuel ts a ≠ throws msg := by
  obtain ⟨d, hd⟩ := secure_of_compatible false hs { listeningPorts := [a.port] }
  unfold listenTransports
  split
  · split
    · intro h
      rcases bind_eq_throws.mp h with h | ⟨⟨found, rest⟩, -, h⟩
      · exact searchWan_not_throws h
      · cases found with
        | none => simp [hd] at h
        | some found => simp at h
    · simp [hd]
  · simp

theorem listenAll_not_throws {fuel : Nat} {as : List Address} (hs : as ≠ [] → ServesListening tls) {f : Flags}
    {p : Params} {msg : String} : listenAll dds tls fuel as f p ≠ throws msg := by
  induction as generalizing f p with
  | nil => simp [listenAll]
  | cons a as ih =>
    have htls := hs (List.cons_ne_nil a as)
    unfold listenAll
    split
    · exact ih fun _ => htls
    · intro h
      rcases bind_eq_throws.mp h with h | ⟨ts, -, h⟩
      · exact listenTransports_not_throws htls h
      · exact ih (fun _ => htls) h

/-- The attributes of a checked configuration are returned, or are not returned at all. -/
theorem Attributed.not_throws {listening connection : List Address} {attributes : Nat → Outcome String Params}
    (h : Attributed dds tls listening connection attributes) (fuel : Nat) (msg : String) :
    attributes fuel ≠ throws msg := by
  intro hmsg
  obtain ⟨id, finish, -, heq⟩ := h.phases
  rw [heq] at hmsg
  rcases bind_eq_throws.mp hmsg with hmsg | ⟨⟨f, p⟩, hl, hmsg⟩
  · exact listenAll_not_throws h.checked.server hmsg
  · obtain ⟨ts, hts⟩ := connectionTransports_of_checked h.checked (noted_listenAll h.checked.addresses hl)
      p.userTransports
    rw [hts] at hmsg
    cases hmsg

/-- TLS is on: nothing is thrown, and every TCP transport is secured. -/
structure TlsApplied (tls : TlsConfiguration) (attributes : Nat → Outcome String Params) : Prop where
  never : ∀ fuel msg, attributes fuel ≠ throws msg
  every : ∀ fuel p, attributes fuel = returns p → ∀ t ∈ p.userTransports, ∀ d, t.tcp? = some d → Secured tls d

theorem Attributed.tlsApplied {listening connection : List Address} {attributes : Nat → Outcome String Params}
    (h : Attributed dds tls listening connection attributes) (ha : tls.isActive = true) : TlsApplied tls attributes := by
  refine ⟨h.not_throws, fun fuel p hp => ?_⟩
  obtain ⟨id, f, p₀, hl, hts⟩ := h.cases hp
  exact secured_connectionTransports ha (allSecured_listenAll ha h.checked.addresses hl) hts

/-- A transport that is listened on has a configuration for servers, any other one for clients. -/
theorem Attributed.roles {listening connection : List Address} {attributes : Nat → Outcome String Params}
    (h : Attributed dds tls listening connection attributes) (ha : tls.isActive = true) {fuel : Nat} {p : Params}
    (hp : attributes fuel = returns p) : ∀ t ∈ p.userTransports, ∀ d, t.tcp? = some d →
      (d.listeningPorts ≠ [] → tls.compatible .server = true) ∧
        (d.listeningPorts = [] → tls.compatible .client = true) := by
  obtain ⟨id, f, p₀, hl, hts⟩ := h.cases hp
  intro t ht d hd
  rcases mem_connectionTransports hts ht hd with ht | hsecure
  · have hports := (allSecured_listenAll ha h.checked.addresses hl t ht d hd).1
    refine ⟨fun _ => h.checked.server ?_ ha, fun hnil => absurd hnil hports⟩
    -- without addresses the loop leaves no transport
    rintro rfl
    cases hl
    cases ht
  · have hports : d.listeningPorts = [] := secure_ports hsecure
    refine ⟨fun hne => absurd hports hne, fun _ => ?_⟩
    rw [TlsConfiguration.secure, if_pos ha, TlsConfiguration.enableTls, if_pos rfl] at hsecure
    split at hsecure
    · cases hsecure
    · rename_i hc
      simpa using hc

/-- Valid configurations with TLS give attributes with TLS on every TCP transport. -/
theorem tls_applied_to_every_tcp_transport (dds : FastDds) :
    (∀ c : DiscoveryServerParticipantConfiguration, c.isValid dds = true → c.tlsConfiguration.isActive = true →
      TlsApplied c.tlsConfiguration (c.getParticipantAttributes dds)) ∧
    ∀ c : InitialPeersParticipantConfiguration, c.isValid dds = true → c.tlsConfiguration.isActive = true →
      TlsApplied c.tlsConfiguration (c.getParticipantAttributes dds) :=
  ⟨fun _ hv ha => (discoveryServer_attributed hv).tlsApplied ha, fun _ hv ha => (initialPeers_attributed hv).tlsApplied ha⟩

/-! Two ports, and a connection of the other version. -/

def bothTls : TlsConfiguration :=
  { kind := .both, certificateAuthorityFile := "ca.pem", privateKeyFile := "key.pem", certificateChainFile := "cert.pem"
    dhParamsFile := "dh.pem" }

def twoPortsTls : InitialPeersParticipantConfiguration :=
  { twoPorts with
    connectionAddresses := OrdMap.empty.set (peerAt "::1" .v6 .tcp) ()
    tlsConfiguration := bothTls }

/-- A discovery server that listens in one version and connects to a server in the other. -/
def serverTls : DiscoveryServerParticipantConfiguration :=
  { id := ⟨"b"⟩, kind := .wanDiscoveryServer, discoveryServerGuidPrefix := 7
    listeningAddresses := OrdMap.empty.set (peerAt "127.0.0.1" .v4 .tcp) ()
    connectionAddresses := OrdMap.empty.set
      { discoveryServerGuidPrefix := 8, addresses := OrdMap.empty.set (peerAt "::1" .v6 .tcp) () } ()
    tlsConfiguration := bothTls }

theorem twoPortsTls_secured :
    (twoPortsTls.isValid plainDds = true ∧ ∃ p, twoPortsTls.getParticipantAttributes plainDds 1 = returns p ∧
      p.userTransports.length = 2 ∧ ∀ t ∈ p.userTransports, ∀ d, t.tcp? = some d → Secured bothTls d) ∧
    (serverTls.isValid plainDds = true ∧ ∃ p, serverTls.getParticipantAttributes plainDds 1 = returns p ∧
      p.userTransports.length = 2 ∧ ∀ t ∈ p.userTransports, ∀ d, t.tcp? = some d → Secured bothTls d) := by
  obtain ⟨hserver, hpeers⟩ := tls_applied_to_every_tcp_transport plainDds
  constructor
  · exact ⟨by decide, _, rfl, by decide, (hpeers twoPortsTls (by decide) (by decide)).every 1 _ rfl⟩
  · exact ⟨by decide, _, rfl, by decide, (hserver serverTls (by decide) (by decide)).every 1 _ rfl⟩

end DDSRouter.Configuration
