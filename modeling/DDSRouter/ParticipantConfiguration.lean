import DDSRouter.Addresses

/-!
# Configurations of participants

The configurations that participants are created from and the checks that they
pass before, with the first message of a check that fails.
-/
namespace DDSRouter.Configuration

inductive ParticipantKind where
  | invalid | blank | echo | dummy | simpleRtps | localDiscoveryServer | wanDiscoveryServer | wanInitialPeers
  deriving DecidableEq, Repr

/-! ### TLS -/

inductive TlsKind where
  | inactive | client | server | both
  deriving DecidableEq, Repr

structure TlsConfiguration where
  kind : TlsKind := .inactive
  verifyPeer : Bool := true
  certificateAuthorityFile : String := ""
  sniServerName : String := ""
  privateKeyFilePassword : String := ""
  privateKeyFile : String := ""
  certificateChainFile : String := ""
  dhParamsFile : String := ""
  deriving DecidableEq, Repr

namespace TlsConfiguration

def isActive (c : TlsConfiguration) : Bool := c.kind ≠ .inactive

def compatible (kind : TlsKind) (c : TlsConfiguration) : Bool :=
  c.kind ≠ .inactive && (kind = c.kind || c.kind = .both && kind ≠ .inactive)

/-- `is_valid_kind` for clients. -/
def clientError (c : TlsConfiguration) : Option String :=
  if c.verifyPeer && c.certificateAuthorityFile = "" then
    some "Invalid certificate_authority_file while server verification must be done."
  else none

def serverError (c : TlsConfiguration) : Option String :=
  if c.privateKeyFile = "" then some "Invalid private_key_file."
  else if c.dhParamsFile = "" then some "Invalid dh_params_file."
  else if c.certificateChainFile = "" then some "Invalid certificate_chain_file."
  else none

def bothError (c : TlsConfiguration) : Option String := c.clientError <|> c.serverError

end TlsConfiguration

/-! ### Participants -/

structure ParticipantConfiguration where
  id : ParticipantId
  kind : ParticipantKind
  isRepeater : Bool := false
  deriving DecidableEq, Repr

structure EchoParticipantConfiguration extends ParticipantConfiguration where
  echoData : Bool := false
  echoDiscovery : Bool := true
  verbose : Bool := false
  deriving DecidableEq, Repr

structure SimpleParticipantConfiguration extends ParticipantConfiguration where
  domain : UInt32 := 0
  deriving DecidableEq, Repr

structure DiscoveryServerParticipantConfiguration extends SimpleParticipantConfiguration where
  discoveryServerGuidPrefix : GuidPrefix
  listeningAddresses : AddressSet := OrdMap.empty
  connectionAddresses : OrdMap DiscoveryServerConnectionAddress Unit := OrdMap.empty
  tlsConfiguration : TlsConfiguration := {}

structure InitialPeersParticipantConfiguration extends SimpleParticipantConfiguration where
  listeningAddresses : AddressSet := OrdMap.empty
  connectionAddresses : AddressSet := OrdMap.empty
  tlsConfiguration : TlsConfiguration := {}

def maxDomainId : UInt32 := 230

/-- The check of the first address that is not valid. -/
def addressError {α : Type} (isValid : α → Bool) (text : α → String) (place : String) (l : List α) : Option String :=
  (l.find? fun a => !isValid a).map fun a => "Incorrect address " ++ text a ++ " in " ++ place ++ " addresses. "

/-- The checks at the end: some address, and TLS for what the addresses are used for. -/
def transportError (listening connection : Bool) (tls : TlsConfiguration) : Option String :=
  if !listening && !connection then some "No listening or connection address specified. "
  else if tls.isActive && listening && !tls.compatible .server then
    some "TLS requires to support Server Configuration if listening addresses set. "
  else if tls.isActive && connection && !tls.compatible .client then
    some "TLS requires to support Client Configuration if connection addresses set. "
  else none

def ParticipantConfiguration.validityError (c : ParticipantConfiguration) : Option String :=
  if !c.id.isValid then some ("Non valid Participant Id ParticipantId\x7b" ++ c.id.id ++ "\x7d. ")
  else if c.kind = .invalid then some "Non valid Participant kind invalid. "
  else none

def SimpleParticipantConfiguration.validityError (c : SimpleParticipantConfiguration) : Option String :=
  c.toParticipantConfiguration.validityError <|>
    if maxDomainId < c.domain then some ("Incorrect domain DomainId\x7b" ++ toString c.domain.toNat ++ "\x7d. ")
    else none

theorem addressError_eq_none {α : Type} {isValid : α → Bool} {text : α → String} {place : String} {l : List α} :
    addressError isValid text place l = none ↔ ∀ a ∈ l, isValid a = true := by
  simp [addressError]

theorem transportError_eq_none {listening connection : Bool} {tls : TlsConfiguration}
    (h : transportError listening connection tls = none) :
    (listening = true → tls.isActive = true → tls.compatible .server = true) ∧
      (connection = true → tls.isActive = true → tls.compatible .client = true) := by
  unfold transportError at h
  split at h
  · cases h
  · split at h
    · cases h
    · split at h
      · cases h
      · constructor
        · intro hl ha
          simp_all
        · intro hc ha
          simp_all

/-- What the checks promise about the addresses and TLS. -/
structure Checked (dds : FastDds) (listening : List Address) (connection : Bool) (tls : TlsConfiguration) : Prop where
  addresses : ∀ a ∈ listening, a.isValid dds = true
  server : listening ≠ [] → tls.isActive = true → tls.compatible .server = true
  client : connection = true → tls.isActive = true → tls.compatible .client = true

variable (dds : FastDds)

namespace DiscoveryServerParticipantConfiguration

def validityError (c : DiscoveryServerParticipantConfiguration) : Option String :=
  c.toSimpleParticipantConfiguration.validityError <|>
  (if !isValidGuidPrefix c.discoveryServerGuidPrefix then
    some ("Non valid Participant Guid Prefix " ++ dds.guidPrefixStr c.discoveryServerGuidPrefix ++ ". ") else none) <|>
  addressError (Address.isValid dds) Address.text "listening" c.listeningAddresses.keys <|>
  addressError (DiscoveryServerConnectionAddress.isValid dds) (DiscoveryServerConnectionAddress.text dds) "connection"
    c.connectionAddresses.keys <|>
  transportError (c.listeningAddresses.keys ≠ []) (c.connectionAddresses.keys ≠ []) c.tlsConfiguration

def isValid (c : DiscoveryServerParticipantConfiguration) : Bool := (validityError dds c).isNone

variable {dds} in
theorem checked {c : DiscoveryServerParticipantConfiguration} (h : c.isValid dds = true) :
    Checked dds c.listeningAddresses.keys (c.connectionAddresses.keys ≠ []) c.tlsConfiguration := by
  simp only [isValid, validityError, Option.isNone_iff_eq_none, Option.orElse_eq_orElse, Option.orElse_eq_or,
    Option.or_eq_none_iff, addressError_eq_none] at h
  obtain ⟨-, -, hl, -, ht⟩ := h
  obtain ⟨hs, hc⟩ := transportError_eq_none ht
  exact ⟨hl, by simpa using hs, hc⟩

end DiscoveryServerParticipantConfiguration

namespace InitialPeersParticipantConfiguration

def validityError (c : InitialPeersParticipantConfiguration) : Option String :=
  c.toSimpleParticipantConfiguration.validityError <|>
  addressError (Address.isValid dds) Address.text "listening" c.listeningAddresses.keys <|>
  addressError (Address.isValid dds) Address.text "connection" c.connectionAddresses.keys <|>
  transportError (c.listeningAddresses.keys ≠ []) (c.connectionAddresses.keys ≠ []) c.tlsConfiguration

def isValid (c : InitialPeersParticipantConfiguration) : Bool := (validityError dds c).isNone

variable {dds} in
theorem checked {c : InitialPeersParticipantConfiguration} (h : c.isValid dds = true) :
    Checked dds c.listeningAddresses.keys (c.connectionAddresses.keys ≠ []) c.tlsConfiguration := by
  simp only [isValid, validityError, Option.isNone_iff_eq_none, Option.orElse_eq_orElse, Option.orElse_eq_or,
    Option.or_eq_none_iff, addressError_eq_none] at h
  obtain ⟨-, hl, -, ht⟩ := h
  obtain ⟨hs, hc⟩ := transportError_eq_none ht
  exact ⟨hl, by simpa using hs, hc⟩

end InitialPeersParticipantConfiguration

end DDSRouter.Configuration
