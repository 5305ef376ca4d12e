import DDSRouter.ParticipantAttributes
import Mathlib.Data.List.Induction

/-!
# A transport for every locator

The transports that are needed are remembered in flags while the addresses are
read. The flags of UDP and those of the TCP connections are set by every address
to its own version, so they speak of the last address only.
-/
namespace DDSRouter.Configuration

open Outcome

variable {dds : FastDds} {tls : TlsConfiguration}

/-! ### The flags after the loops -/

/-- The last address of the kind. -/
def last (p : Address → Bool) (l : List Address) : Option Address := (l.filter p).getLast?

theorem last_concat (p : Address → Bool) (l : List Address) (a : Address) :
    last p (l ++ [a]) = if p a then some a else last p l := by
  unfold last
  cases hp : p a with
  | true => simp [List.filter_append, hp]
  | false => simp [List.filter_append, hp]

/-- The flags for v4 and v6 that an address sets, if there is one. -/
def versions (before : Bool × Bool) : Option Address → Bool × Bool
  | some a => (a.isIpv4, !a.isIpv4)
  | none => before

theorem last_append (p : Address → Bool) (l m : List Address) (before : Bool × Bool) :
    versions before (last p (l ++ m)) = versions (versions before (last p l)) (last p m) := by
  unfold last
  rw [List.filter_append, List.getLast?_append]
  cases (m.filter p).getLast? with
  | none => simp [versions]
  | some a => simp [versions]

/-- What the loop over the listening addresses leaves. -/
structure Noted (done : List Address) (f : Flags) (p : Params) : Prop where
  listening : f.hasListeningAddresses = true ↔ done ≠ []
  tcpv4 : f.hasListeningTcpIpv4 = true ↔ ∃ a ∈ done, a.getLocatorKind = .tcpv4
  tcpv6 : f.hasListeningTcpIpv6 = true ↔ ∃ a ∈ done, a.getLocatorKind = .tcpv6
  udp : (f.hasUdpIpv4, f.hasUdpIpv6) = versions (false, false) (last Address.isUdp done)
  connectionTcp : (f.hasConnectionTcpIpv4, f.hasConnectionTcpIpv6) = (false, false)
  connectionUdp : (f.hasConnectionUdpIpv4, f.hasConnectionUdpIpv6) = (false, false)
  transports : ∀ k, k ∈ p.userTransports.map Transport.kind ↔
    (k = .tcpv4 ∨ k = .tcpv6) ∧ ∃ a ∈ done, a.getLocatorKind = k
  metatraffic : p.metatrafficUnicastLocatorList = done.map listeningLocator
  default : p.defaultUnicastLocatorList = done.map listeningLocator
  rest : p.initialPeersList = [] ∧ p.discoveryServers = []

theorem noted_initial (id : ParticipantId) : Noted [] {} (commonAttributes id) where
  listening := by simp
  tcpv4 := by simp
  tcpv6 := by simp
  udp := rfl
  connectionTcp := rfl
  connectionUdp := rfl
  transports := by simp [commonAttributes]
  metatraffic := rfl
  default := rfl
  rest := ⟨rfl, rfl⟩

theorem getLocatorKind_eq (a : Address) : a.getLocatorKind = match a.isTcp, a.isIpv4 with
    | false, true => .udpv4
    | false, false => .udpv6
    | true, true => .tcpv4
    | true, false => .tcpv6 := by
  unfold Address.getLocatorKind Address.isTcp Address.isIpv4
  cases a.ipVersion <;> cases a.transportProtocol <;> rfl

theorem isUdp_eq (a : Address) : a.isUdp = !a.isTcp := by
  unfold Address.isUdp Address.isTcp
  cases a.transportProtocol <;> rfl

/-- The kinds of transports that an address leaves are those there were and its own. -/
theorem kinds_listenTransports {fuel : Nat} {ts ts' : List Transport} {a : Address}
    (h : listenTransports dds tls fuel ts a = returns ts') (k : LocatorKind) :
    k ∈ ts'.map Transport.kind ↔
      k ∈ ts.map Transport.kind ∨ (k = .tcpv4 ∨ k = .tcpv6) ∧ a.getLocatorKind = k := by
  rw [getLocatorKind_eq]
  obtain ⟨htcp, rfl⟩ | ⟨htcp, hv4, d, rest, rfl, rfl⟩ | ⟨htcp, hv4, rfl, d, -, rfl⟩ | ⟨htcp, hv4, d, -, rfl⟩ :=
    listenTransports_cases h
  · rw [htcp]
    cases a.isIpv4 <;> cases k <;> simp
  · rw [htcp, hv4]
    cases k <;> simp [Transport.kind]
  · rw [htcp, hv4]
    cases k <;> simp [Transport.kind]
  · rw [htcp, hv4]
    cases k <;> simp [Transport.kind]

section Flags

variable (f : Flags) (a : Address)

theorem listening_hasListeningAddresses : (f.listening a).hasListeningAddresses = true := by
  unfold Flags.listening
  cases a.isTcp <;> cases a.isIpv4 <;> rfl

theorem listening_tcpv4 : (f.listening a).hasListeningTcpIpv4 = true ↔
    f.hasListeningTcpIpv4 = true ∨ a.getLocatorKind = .tcpv4 := by
  rw [getLocatorKind_eq]
  unfold Flags.listening
  cases a.isTcp <;> cases a.isIpv4 <;> simp

theorem listening_tcpv6 : (f.listening a).hasListeningTcpIpv6 = true ↔
    f.hasListeningTcpIpv6 = true ∨ a.getLocatorKind = .tcpv6 := by
  rw [getLocatorKind_eq]
  unfold Flags.listening
  cases a.isTcp <;> cases a.isIpv4 <;> simp

theorem listening_udp : ((f.listening a).hasUdpIpv4, (f.listening a).hasUdpIpv6) =
    if a.isUdp then (a.isIpv4, !a.isIpv4) else (f.hasUdpIpv4, f.hasUdpIpv6) := by
  rw [isUdp_eq]
  unfold Flags.listening
  cases a.isTcp <;> cases a.isIpv4 <;> rfl

theorem listening_connection :
    ((f.listening a).hasConnectionTcpIpv4, (f.listening a).hasConnectionTcpIpv6) =
        (f.hasConnectionTcpIpv4, f.hasConnectionTcpIpv6) ∧
      ((f.listening a).hasConnectionUdpIpv4, (f.listening a).hasConnectionUdpIpv6) =
        (f.hasConnectionUdpIpv4, f.hasConnectionUdpIpv6) := by
  unfold Flags.listening
  cases a.isTcp <;> cases a.isIpv4 <;> exact ⟨rfl, rfl⟩

end Flags

theorem noted_listening {fuel : Nat} {done : List Address} {a : Address} {f : Flags} {p : Params} {ts : List Transport}
    (h : Noted done f p) (hts : listenTransports dds tls fuel p.userTransports a = returns ts) :
    Noted (done ++ [a]) (f.listening a) (p.listening a ts) := by
  have hkinds : ∀ k, (∃ b ∈ done ++ [a], b.getLocatorKind = k) ↔
      (∃ b ∈ done, b.getLocatorKind = k) ∨ a.getLocatorKind = k := by
    intro k
    simp [or_and_right, exists_or]
  exact
    { listening := by simp [listening_hasListeningAddresses]
      tcpv4 := by rw [listening_tcpv4, hkinds, h.tcpv4]
      tcpv6 := by rw [listening_tcpv6, hkinds, h.tcpv6]
      udp := by
        rw [listening_udp, last_concat, h.udp]
        cases a.isUdp <;> rfl
      connectionTcp := (listening_connection f a).1.trans h.connectionTcp
      connectionUdp := (listening_connection f a).2.trans h.connectionUdp
      transports := by
        intro k
        rw [Params.listening_userTransports, kinds_listenTransports hts, h.transports, hkinds, and_or_left]
      metatraffic := by simp [Params.listening, h.metatraffic]
      default := by simp [Params.listening, h.default]
      rest := h.rest }

theorem noted_listenAll {fuel : Nat} {as : List Address} {id : ParticipantId} {f : Flags} {p : Params}
    (hv : ∀ a ∈ as, a.isValid dds = true)
    (h : listenAll dds tls fuel as {} (commonAttributes id) = returns (f, p)) : Noted as f p :=
  listenAll_history (J := Noted) (fun _ _ _ _ _ hJ hts => noted_listening hJ hts) hv (noted_initial id) h

/-- The connection addresses set the flags of the last of them. -/
structure Connected (f : Flags) (as : List Address) (f' : Flags) : Prop where
  listening : f'.hasListeningAddresses = f.hasListeningAddresses
  tcpv4 : f'.hasListeningTcpIpv4 = f.hasListeningTcpIpv4
  tcpv6 : f'.hasListeningTcpIpv6 = f.hasListeningTcpIpv6
  connectionTcp : (f'.hasConnectionTcpIpv4, f'.hasConnectionTcpIpv6) =
    versions (f.hasConnectionTcpIpv4, f.hasConnectionTcpIpv6) (last Address.isTcp as)
  connectionUdp : (f'.hasConnectionUdpIpv4, f'.hasConnectionUdpIpv6) =
    versions (f.hasConnectionUdpIpv4, f.hasConnectionUdpIpv6) (last Address.isUdp as)
  udp : (f'.hasUdpIpv4, f'.hasUdpIpv6) = versions (f.hasUdpIpv4, f.hasUdpIpv6) (last Address.isUdp as)

theorem connected_foldl (f : Flags) (as : List Address) : Connected f as (as.foldl Flags.connection f) := by
  induction as using List.reverseRecOn with
  | nil => exact ⟨rfl, rfl, rfl, rfl, rfl, rfl⟩
  | append_singleton as a ih =>
    rw [List.foldl_append, List.foldl_cons, List.foldl_nil, Flags.connection]
    cases htcp : a.isTcp with
    | true =>
      have hlast : last Address.isUdp (as ++ [a]) = last Address.isUdp as := by simp [last_concat, isUdp_eq, htcp]
      refine ⟨ih.listening, ih.tcpv4, ih.tcpv6, ?_, ?_, ?_⟩
      · simp [last_concat, htcp, versions]
      · rw [hlast]
        exact ih.connectionUdp
      · rw [hlast]
        exact ih.udp
    | false =>
      have hlast : last Address.isUdp (as ++ [a]) = some a := by simp [last_concat, isUdp_eq, htcp]
      refine ⟨ih.listening, ih.tcpv4, ih.tcpv6, ?_, ?_, ?_⟩
      · simpa [last_concat, htcp] using ih.connectionTcp
      · rw [hlast]
        rfl
      · rw [hlast]
        rfl

/-! ### The transports there are -/

section Kinds

variable {listening connection : List Address} {f : Flags} {p : Params} {ts : List Transport}

theorem versions_none_iff {o : Option Address} :
    ((versions (false, false) o).1 = true ↔ ∃ a, o = some a ∧ a.isIpv4 = true) ∧
      ((versions (false, false) o).2 = true ↔ ∃ a, o = some a ∧ a.isIpv4 = false) := by
  cases o with
  | none => simp [versions]
  | some a => simp [versions]

/-- An address has a transport of its kind if it is TCP and one of its version is listened
on or connected to last, or if it is UDP and the last UDP address has its version. -/
theorem kind_mem_iff (hn : Noted listening f p)
    (hc : connectionTransports tls (connection.foldl Flags.connection f) p.userTransports = returns ts) (b : Address) :
    b.getLocatorKind ∈ ts.map Transport.kind ↔
      if b.isTcp then
        (∃ a ∈ listening, a.isTcp = true ∧ a.isIpv4 = b.isIpv4) ∨
          ∃ a, last Address.isTcp connection = some a ∧ a.isIpv4 = b.isIpv4
      else ∃ a, last Address.isUdp (listening ++ connection) = some a ∧ a.isIpv4 = b.isIpv4 := by
  have hcon := connected_foldl f connection
  generalize connection.foldl Flags.connection f = f' at hcon hc
  obtain ⟨d₄, d₆, -, -, rfl⟩ := connectionTransports_cases hc
  have htcp := hcon.connectionTcp
  have hudp := hcon.udp
  rw [hn.connectionTcp] at htcp
  rw [hn.udp, ← last_append] at hudp
  have htcp₄ : f'.hasConnectionTcpIpv4 = true ↔ ∃ a, last Address.isTcp connection = some a ∧ a.isIpv4 = true := by
    rw [← versions_none_iff.1, ← htcp]
  have htcp₆ : f'.hasConnectionTcpIpv6 = true ↔ ∃ a, last Address.isTcp connection = some a ∧ a.isIpv4 = false := by
    rw [← versions_none_iff.2, ← htcp]
  have hudp₄ : f'.hasUdpIpv4 = true ↔
      ∃ a, last Address.isUdp (listening ++ connection) = some a ∧ a.isIpv4 = true := by
    rw [← versions_none_iff.1, ← hudp]
  have hudp₆ : f'.hasUdpIpv6 = true ↔
      ∃ a, last Address.isUdp (listening ++ connection) = some a ∧ a.isIpv4 = false := by
    rw [← versions_none_iff.2, ← hudp]
  have hlisten : ∀ v, (∃ a ∈ listening, a.isTcp = true ∧ a.isIpv4 = v) ↔
      ∃ a ∈ listening, a.getLocatorKind = if v then .tcpv4 else .tcpv6 := by
    intro v
    refine exists_congr fun a => and_congr_right fun _ => ?_
    rw [getLocatorKind_eq]
    cases a.isTcp <;> cases a.isIpv4 <;> cases v <;> simp
  have hlisten₄ := hlisten true
  have hlisten₆ := hlisten false
  rw [if_pos rfl, ← hn.tcpv4, ← hcon.tcpv4] at hlisten₄
  rw [if_neg Bool.false_ne_true, ← hn.tcpv6, ← hcon.tcpv6] at hlisten₆
  have hmem : ∀ k, k ∈ p.userTransports.map Transport.kind ↔
      k = .tcpv4 ∧ f'.hasListeningTcpIpv4 = true ∨ k = .tcpv6 ∧ f'.hasListeningTcpIpv6 = true := by
    intro k
    rw [hn.transports, hcon.tcpv4, hcon.tcpv6, hn.tcpv4, hn.tcpv6]
    cases k <;> simp
  have hif : ∀ (c : Bool) (t : Transport) (k : LocatorKind),
      k ∈ (if c then [t] else []).map Transport.kind ↔ c = true ∧ k = t.kind := by
    intro c t k
    cases c <;> simp
  have hneeded : ∀ l c : Bool, l = true ∨ (c && !l) = true ↔ l = true ∨ c = true := by decide
  simp only [List.map_append, List.mem_append, hmem, hif, Transport.kind]
  rw [getLocatorKind_eq]
  cases b.isTcp with
  | true =>
    cases b.isIpv4 with
    | true =>
      rw [if_pos rfl, hlisten₄, ← htcp₄, ← hneeded]
      simp
    | false =>
      rw [if_pos rfl, hlisten₆, ← htcp₆, ← hneeded]
      simp
  | false =>
    cases b.isIpv4 with
    | true =>
      rw [if_neg Bool.false_ne_true, ← hudp₄]
      simp
    | false =>
      rw [if_neg Bool.false_ne_true, ← hudp₆]
      simp

/-- One UDP version, and for the TCP connections no version but the last one and those that
are listened on. -/
structure VersionsFit (listening connection : List Address) : Prop where
  udp : ∀ a ∈ listening ++ connection, ∀ b ∈ listening ++ connection, a.isUdp = true → b.isUdp = true →
    a.ipVersion = b.ipVersion
  tcp : ∀ b ∈ connection, b.isTcp = true →
    (∃ a ∈ listening, a.isTcp = true ∧ a.ipVersion = b.ipVersion) ∨
      ∃ a, last Address.isTcp connection = some a ∧ a.ipVersion = b.ipVersion

theorem isIpv4_eq_iff {a b : Address} : a.isIpv4 = b.isIpv4 ↔ a.ipVersion = b.ipVersion := by
  unfold Address.isIpv4
  cases a.ipVersion <;> cases b.ipVersion <;> simp

theorem last_mem {q : Address → Bool} {l : List Address} {a : Address} (h : last q l = some a) :
    a ∈ l ∧ q a = true := by
  have hmem := List.mem_of_getLast? h
  rwa [List.mem_filter] at hmem

theorem exists_last {q : Address → Bool} {l : List Address} {a : Address} (ha : a ∈ l) (hq : q a = true) :
    ∃ b, last q l = some b := by
  cases h : last q l with
  | some b => exact ⟨b, rfl⟩
  | none =>
    have hnil : l.filter q = [] := List.getLast?_eq_none_iff.mp h
    have hmem : a ∈ l.filter q := List.mem_filter.mpr ⟨ha, hq⟩
    simp [hnil] at hmem

theorem served_iff_versionsFit (hn : Noted listening f p)
    (hc : connectionTransports tls (connection.foldl Flags.connection f) p.userTransports = returns ts) :
    (∀ a ∈ listening ++ connection, a.getLocatorKind ∈ ts.map Transport.kind) ↔ VersionsFit listening connection := by
  simp only [kind_mem_iff hn hc, isIpv4_eq_iff]
  constructor
  · intro h
    constructor
    · intro a ha b hb hua hub
      have h₁ := h a ha
      have h₂ := h b hb
      rw [isUdp_eq, Bool.not_eq_true'] at hua hub
      simp only [hua, hub, Bool.false_eq_true, if_false] at h₁ h₂
      obtain ⟨c, hc, hca⟩ := h₁
      obtain ⟨c', hc', hcb⟩ := h₂
      rw [hc, Option.some.injEq] at hc'
      rw [← hca, ← hcb, hc']
    · intro b hb htcp
      have h₁ := h b (List.mem_append_right listening hb)
      simpa only [htcp, if_true] using h₁
  · intro h b hb
    cases htcp : b.isTcp with
    | true =>
      simp only [if_true]
      rcases List.mem_append.mp hb with hl | hc
      · exact .inl ⟨b, hl, htcp, rfl⟩
      · exact h.tcp b hc htcp
    | false =>
      simp only [Bool.false_eq_true, if_false]
      have hub : b.isUdp = true := by simp [isUdp_eq, htcp]
      obtain ⟨a, ha⟩ := exists_last hb hub
      obtain ⟨hmem, hua⟩ := last_mem ha
      exact ⟨a, ha, h.udp a hmem b hb hua hub⟩

end Kinds

/-! ### The locators -/

/-- All locators of the attributes. -/
def Params.locators (p : Params) : List Locator :=
  p.metatrafficUnicastLocatorList ++ p.defaultUnicastLocatorList ++ p.initialPeersList ++
    p.discoveryServers.map RemoteServer.locator

def Params.EveryLocatorServed (p : Params) : Prop := ∀ l ∈ p.locators, ∃ t ∈ p.userTransports, t.kind = l.kind

/-- Where the kinds of the locators are those of the addresses. -/
theorem everyLocatorServed_iff {p : Params} {addresses : List Address}
    (h : ∀ k, k ∈ p.locators.map Locator.kind ↔ k ∈ addresses.map Address.getLocatorKind) :
    p.EveryLocatorServed ↔ ∀ a ∈ addresses, a.getLocatorKind ∈ p.userTransports.map Transport.kind := by
  constructor
  · intro hserved a ha
    obtain ⟨l, hl, hk⟩ := List.mem_map.mp ((h a.getLocatorKind).mpr (List.mem_map_of_mem ha))
    obtain ⟨t, ht, htk⟩ := hserved l hl
    exact List.mem_map.mpr ⟨t, ht, htk.trans hk⟩
  · intro haddr l hl
    obtain ⟨a, ha, hk⟩ := List.mem_map.mp ((h l.kind).mp (List.mem_map_of_mem hl))
    obtain ⟨t, ht, htk⟩ := List.mem_map.mp (haddr a ha)
    exact ⟨t, ht, htk.trans hk⟩

theorem kinds_listeningLocator (l : List Address) :
    (l.map listeningLocator).map Locator.kind = l.map Address.getLocatorKind := by
  rw [List.map_map]
  rfl

theorem discoveryServer_served_iff {c : DiscoveryServerParticipantConfiguration} {fuel : Nat} {p : Params}
    (hv : c.isValid dds = true) (h : c.getParticipantAttributes dds fuel = returns p) :
    p.EveryLocatorServed ↔ VersionsFit c.listeningAddresses.keys ((c.servers dds).map Prod.snd) := by
  obtain ⟨f, p₀, hl, hts, hmeta, hdefault, hpeers, hservers⟩ := c.attributes_cases h
  have hn := noted_listenAll (DiscoveryServerParticipantConfiguration.checked hv).addresses hl
  rw [← served_iff_versionsFit hn hts]
  refine everyLocatorServed_iff fun k => ?_
  have hkinds : (p.discoveryServers.map RemoteServer.locator).map Locator.kind =
      ((c.servers dds).map Prod.snd).map Address.getLocatorKind := by
    rw [hservers, List.map_map, List.map_map, List.map_map]
    rfl
  rw [Params.locators, hmeta, hdefault, hpeers, hn.metatraffic, hn.default, hn.rest.1]
  simp only [List.map_append, List.mem_append, kinds_listeningLocator, hkinds, List.map_nil, List.not_mem_nil, or_false]
  tauto

/-- The empty locators are of the kind of the last connection address. -/
theorem initialPeers_served_iff {c : InitialPeersParticipantConfiguration} {fuel : Nat} {p : Params}
    (hv : c.isValid dds = true) (h : c.getParticipantAttributes dds fuel = returns p) :
    p.EveryLocatorServed ↔ VersionsFit c.listeningAddresses.keys (c.peers dds) := by
  obtain ⟨f, p₀, hl, hts, hmeta, hdefault, hpeers, hservers⟩ := c.attributes_cases h
  have hn := noted_listenAll (InitialPeersParticipantConfiguration.checked hv).addresses hl
  rw [← served_iff_versionsFit hn hts]
  have hcon := connected_foldl f (c.peers dds)
  generalize (c.peers dds).foldl Flags.connection f = f' at hcon hts hmeta
  have hudp := hcon.connectionUdp
  rw [hn.connectionUdp] at hudp
  have hlast : ∀ v, (∃ a, last Address.isUdp (c.peers dds) = some a ∧ a.isIpv4 = v) →
      (if v then LocatorKind.udpv4 else .udpv6) ∈ (c.peers dds).map Address.getLocatorKind := by
    rintro v ⟨a, ha, rfl⟩
    obtain ⟨hmem, hu⟩ := last_mem ha
    refine List.mem_map.mpr ⟨a, hmem, ?_⟩
    rw [isUdp_eq, Bool.not_eq_true'] at hu
    rw [getLocatorKind_eq, hu]
    cases a.isIpv4 <;> rfl
  have h₄ : f'.hasConnectionUdpIpv4 = true → .udpv4 ∈ (c.peers dds).map Address.getLocatorKind := by
    intro h₄
    exact hlast true (versions_none_iff.1.mp (by rw [← hudp]; exact h₄))
  have h₆ : f'.hasConnectionUdpIpv6 = true → .udpv6 ∈ (c.peers dds).map Address.getLocatorKind := by
    intro h₆
    exact hlast false (versions_none_iff.2.mp (by rw [← hudp]; exact h₆))
  refine everyLocatorServed_iff fun k => ?_
  have hpeer : ((c.peers dds).map peerLocator).map Locator.kind = (c.peers dds).map Address.getLocatorKind := by
    rw [List.map_map]
    rfl
  have hextra : k ∈ List.map Locator.kind (if !f'.hasListeningAddresses then
      (if f'.hasConnectionUdpIpv4 then [{ kind := .udpv4 }] else []) ++
        if f'.hasConnectionUdpIpv6 then [{ kind := .udpv6 }] else []
      else []) → k ∈ (c.peers dds).map Address.getLocatorKind := by
    intro hk
    obtain ⟨l, hl, rfl⟩ := List.mem_map.mp hk
    have hl' : f'.hasListeningAddresses = false ∧ (f'.hasConnectionUdpIpv4 = true ∧ l = { kind := .udpv4 } ∨
        f'.hasConnectionUdpIpv6 = true ∧ l = { kind := .udpv6 }) := by simpa using hl
    obtain ⟨-, ⟨hu, rfl⟩ | ⟨hu, rfl⟩⟩ := hl'
    · exact h₄ hu
    · exact h₆ hu
  rw [Params.locators, hmeta, hdefault, hpeers, hservers, hn.metatraffic, hn.default, hn.rest.2, List.map_append,
    List.map_append, List.map_append, List.map_append, kinds_listeningLocator, hpeer, List.map_append]
  simp only [List.mem_append, List.map_nil, List.not_mem_nil, or_false]
  tauto

/-- Where the attributes are returned, every locator in them has a transport of its kind
exactly if all UDP addresses have one version, and every TCP address that is connected to
has the version of the last one of them or of one that is listened on. -/
theorem every_locator_served_iff_versionsFit (dds : FastDds) :
    (∀ (c : DiscoveryServerParticipantConfiguration) (fuel : Nat) (p : Params), c.isValid dds = true →
      c.getParticipantAttributes dds fuel = returns p →
        (p.EveryLocatorServed ↔ VersionsFit c.listeningAddresses.keys ((c.servers dds).map Prod.snd))) ∧
    ∀ (c : InitialPeersParticipantConfiguration) (fuel : Nat) (p : Params), c.isValid dds = true →
      c.getParticipantAttributes dds fuel = returns p →
        (p.EveryLocatorServed ↔ VersionsFit c.listeningAddresses.keys (c.peers dds)) :=
  ⟨fun _ _ _ hv h => discoveryServer_served_iff hv h, fun _ _ _ hv h => initialPeers_served_iff hv h⟩

/-! Initial peers over UDP, of one version and of both. -/

def plainDds : FastDds where
  isIPv4 ip := ip = "127.0.0.1" || ip = "127.0.0.2"
  isIPv6 ip := ip = "::1"
  resolveNameDNS _ := ([], [])
  wanAddress ip := ip
  readGuidPrefix _ := 0
  guidPrefixStr _ := ""
  unsetIpVersion := .v4

def peerAt (ip : String) (version : IpVersion) (tp : TransportProtocol) : Address :=
  { ip := ip, port := 11666, externalPort := 11666, ipVersion := version, transportProtocol := tp }

def peersAt (connection : AddressSet) : InitialPeersParticipantConfiguration :=
  { id := ⟨"a"⟩, kind := .wanInitialPeers, connectionAddresses := connection }

def oneVersion : InitialPeersParticipantConfiguration :=
  peersAt ((OrdMap.empty.set (peerAt "127.0.0.1" .v4 .udp) ()).set (peerAt "127.0.0.2" .v4 .udp) ())

def twoVersions : InitialPeersParticipantConfiguration :=
  peersAt ((OrdMap.empty.set (peerAt "127.0.0.1" .v4 .udp) ()).set (peerAt "::1" .v6 .udp) ())

theorem oneVersion_served :
    oneVersion.isValid plainDds = true ∧
      ∃ p, oneVersion.getParticipantAttributes plainDds 1 = returns p ∧ p.EveryLocatorServed := by
  refine ⟨by decide, _, rfl, ?_⟩
  rw [(every_locator_served_iff_versionsFit plainDds).2 oneVersion 1 _ (by decide) rfl]
  exact ⟨by decide, by decide⟩

theorem twoVersions_not_served :
    ¬ ((∀ (dds : FastDds) (c : DiscoveryServerParticipantConfiguration) (fuel : Nat) (p : Params),
        c.isValid dds = true → c.getParticipantAttributes dds fuel = returns p → p.EveryLocatorServed) ∧
      ∀ (dds : FastDds) (c : InitialPeersParticipantConfiguration) (fuel : Nat) (p : Params),
        c.isValid dds = true → c.getParticipantAttributes dds fuel = returns p → p.EveryLocatorServed) := by
  rintro ⟨-, h⟩
  have hserved := h plainDds twoVersions 1 _ (by decide) rfl
  obtain ⟨t, ht, hk⟩ := hserved (peerLocator (peerAt "127.0.0.1" .v4 .udp)) (by decide)
  revert hk
  revert t
  decide

end DDSRouter.Configuration
