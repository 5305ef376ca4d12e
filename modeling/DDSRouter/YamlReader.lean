import DDSRouter.Lib.Documents
import DDSRouter.ParticipantConfiguration
import DDSRouter.Router

/-!
# The reader of configuration files

What `YamlReader` makes of a document, for each version of the format. A reader
returns a value or throws a `ConfigurationException`. The conversions of scalars
are those of `yaml-cpp`; these, and what is used of Fast DDS and of `cpp_utils`,
are parameters.
-/
namespace DDSRouter.Configuration

open Documents

abbrev Yaml := Node

/-- In the order of the enumeration. -/
inductive YamlReaderVersion where
  | v1_0 | v2_0 | v3_0
  deriving DecidableEq, Repr

/-- What the reader uses of other libraries. -/
structure Libraries where
  dds : FastDds
  fuzzy : FuzzyUtils
  /-- The levels of a fuzzy value that was not assigned, and of one that was. -/
  unsetLevel : Nat
  assignedLevel : Nat
  toLowercase : String → String
  /-- `DEFAULT_ROS2_SERVER_GUIDPREFIX`. -/
  ros2ServerGuidPrefix : String
  /-- `Node::as` of scalars, `none` where it throws. -/
  asBool : String → Option Bool
  asUInt32 : String → Option UInt32
  asUInt16 : String → Option UInt16

/-- What an exception of the reader reports. -/
inductive ConfigurationException where
  | notAMap (tag : String)
  | tagNotFound (tag : String)
  | notScalar
  | incorrectFormat
  | notSequence
  | notInEnumeration (value : String)
  | inTag (tag : String) (cause : ConfigurationException)
  | inSequence (cause : ConfigurationException)
  | addressWithoutHost
  | incorrectTls (client server : Option String)
  | unknownKind (kind : String)
  | participantNotMap
  | participantWithoutType
  | participantsNotSequence
  deriving DecidableEq, Repr

abbrev Reading (α : Type) := Except ConfigurationException α

namespace YamlReader

/-! ### Generic -/

def isTagPresent (yml : Yaml) (tag : String) : Reading Bool :=
  match yml with
  | .map _ | .null => return (yml.find tag).isSome
  | _ => throw (.notAMap tag)

def getValueInTag (yml : Yaml) (tag : String) : Reading Yaml :=
  match yml with
  | .map _ | .null =>
    match yml.find tag with
    | some value => return value
    | none => throw (.tagNotFound tag)
  | _ => throw (.notAMap tag)

/-- A required value: the variants of `get`, `get_scalar`, `get_list` and
`get_enumeration` with a tag. -/
def getIn {α : Type} (yml : Yaml) (tag : String) (get : Yaml → Reading α) : Reading α :=
  (getValueInTag yml tag >>= get).mapError (.inTag tag)

/-- What is read only where the tag is present. -/
def ifPresent {α : Type} (yml : Yaml) (tag : String) (get : Reading α) : Reading (Option α) := do
  if ← isTagPresent yml tag then return some (← get) else return none

def getScalar {α : Type} (convert : String → Option α) : Yaml → Reading α
  | .scalar text =>
    match convert text with
    | some a => return a
    | none => throw .incorrectFormat
  | _ => throw .notScalar

def getString : Yaml → Reading String := getScalar some

def getList {α : Type} (get : Yaml → Reading α) : Yaml → Reading (List α)
  | .sequence elements => (elements.mapM get).mapError .inSequence
  | _ => throw .notSequence

def getSet {α : Type} [WeakOrder α] (get : Yaml → Reading α) (yml : Yaml) (tag : String) :
    Reading (OrdMap α Unit) :=
  return OrdMap.ofKeys (← getIn yml tag (getList get))

def getEnumeration {α : Type} (values : List (String × α)) (yml : Yaml) : Reading α := do
  let value ← getString yml
  match values.lookup value with
  | some a => return a
  | none => throw (.notInEnumeration value)

variable (env : Libraries)

def getBool : Yaml → Reading Bool := getScalar env.asBool

def getUInt32 : Yaml → Reading UInt32 := getScalar env.asUInt32

def getPort : Yaml → Reading UInt16 := getScalar env.asUInt16

/-! ### Entities -/

def getTransportProtocol : Yaml → Reading TransportProtocol := getEnumeration [("tcp", .tcp), ("udp", .udp)]

def getIpVersion : Yaml → Reading IpVersion := getEnumeration [("v4", .v4), ("v6", .v6)]

def getParticipantId (yml : Yaml) : Reading ParticipantId := return .ofName (← getString yml)

/-- `PARTICIPANT_KIND_ALIASES`, kind by kind. -/
def participantKindAliases : List (ParticipantKind × List String) :=
  [(.invalid, ["__invalid_participant_kind__", "", "", ""]), (.blank, ["blank", "void", "", ""]),
    (.echo, ["echo", "", "", ""]), (.dummy, ["dummy", "", "", ""]), (.simpleRtps, ["local", "simple", "", ""]),
    (.localDiscoveryServer, ["discovery-server", "ds", "local-ds", "local-discovery-server"]),
    (.wanDiscoveryServer, ["wan-ds", "wan-discovery-server", "", ""]),
    (.wanInitialPeers, ["wan", "router", "initial-peers", ""])]

def participantKindFromName (name : String) : ParticipantKind :=
  if name = "" then .invalid
  else
    match participantKindAliases.find? fun e => e.2.any fun s => env.toLowercase name = env.toLowercase s with
    | some e => e.1
    | none => .invalid

/-- Before version 3.0, wan means wan discovery server. -/
def getParticipantKind (version : YamlReaderVersion) (yml : Yaml) : Reading ParticipantKind := do
  let kind := participantKindFromName env (← getString yml)
  if version ≠ .v3_0 && kind = .wanInitialPeers then return .wanDiscoveryServer else return kind

def serverDefaultGuidPrefix : String := "01.0f.00.00.00.00.00.00.00.00.ca.fe"

/-- `GuidPrefix(ros, id)`: a default prefix whose third octet is the low octet of the id. -/
def guidPrefixOfId (ros : Bool) (id : UInt32) : GuidPrefix :=
  let base := env.dds.readGuidPrefix (if ros then env.ros2ServerGuidPrefix else serverDefaultGuidPrefix)
  base &&& ~~~(0xff#96 <<< 72) ||| BitVec.ofNat 96 (id.toNat % 256) <<< 72

/-- The guid where it is given, or else the id. -/
def getGuidPrefix (yml : Yaml) : Reading GuidPrefix := do
  if ← isTagPresent yml "guid" then return env.dds.readGuidPrefix (← getIn yml "guid" getString)
  let ros ← ifPresent yml "ros-discovery-server" (getIn yml "ros-discovery-server" (getBool env))
  let id ← getIn yml "id" (getUInt32 env)
  return guidPrefixOfId env (ros.getD false) id

def getAddress (yml : Yaml) : Reading Address := do
  let ipVersion ← ifPresent yml "ip-version" (getIn yml "ip-version" getIpVersion)
  let ip ← ifPresent yml "ip" (getIn yml "ip" getString)
  let domain ← ifPresent yml "domain" (getIn yml "domain" getString)
  if ip.isNone && domain.isNone then throw .addressWithoutHost
  let port := (← ifPresent yml "port" (getIn yml "port" (getPort env))).getD Address.defaultPort
  let externalPort := (← ifPresent yml "external-port" (getIn yml "external-port" (getPort env))).getD port
  let tp := (← ifPresent yml "transport" (getIn yml "transport" getTransportProtocol)).getD
    Address.defaultTransportProtocol
  -- the domain is not used where there is an IP
  match ip, ipVersion with
  | some ip, some v => return Address.ofIpVersion ip port externalPort v tp
  | some ip, none => return Address.ofIp env.dds ip port externalPort tp
  | none, some v => return Address.ofDomainVersion env.dds port externalPort v (domain.getD "") tp
  | none, none => return Address.ofDomain env.dds port externalPort (domain.getD "") tp

/-- The guid prefix stands among the other entries in version 1.0. -/
def getServerGuidPrefix (version : YamlReaderVersion) (yml : Yaml) : Reading GuidPrefix :=
  match version with
  | .v1_0 => getGuidPrefix env yml
  | _ => getIn yml "discovery-server-guid" (getGuidPrefix env)

def getDiscoveryServerConnectionAddress (version : YamlReaderVersion) (yml : Yaml) :
    Reading DiscoveryServerConnectionAddress := do
  let guid ← getServerGuidPrefix env version yml
  let addresses ← getSet (getAddress env) yml "addresses"
  return { discoveryServerGuidPrefix := guid, addresses := addresses }

/-! ### Topics -/

def fillTopicQoS (q : TopicQoS) (yml : Yaml) : Reading TopicQoS := do
  let reliability ← ifPresent yml "reliability" (getIn yml "reliability" (getBool env))
  let durability ← ifPresent yml "durability" (getIn yml "durability" (getBool env))
  let depth ← ifPresent yml "depth" (getIn yml "depth" (getUInt32 env))
  let partitions ← ifPresent yml "partitions" (getIn yml "partitions" (getBool env))
  let ownership ← ifPresent yml "ownership" (getIn yml "ownership" (getBool env))
  return {
    reliabilityQos := (reliability.map fun b => if b then .reliable else .bestEffort).getD q.reliabilityQos
    durabilityQos := (durability.map fun b => if b then .transientLocal else .volatile).getD q.durabilityQos
    historyDepth := (depth.map UInt32.toNat).getD q.historyDepth
    usePartitions := partitions.getD q.usePartitions
    ownershipQos := (ownership.map fun b => if b then .exclusive else .shared).getD q.ownershipQos }

/-- The value that `default_history_depth` starts with. -/
def initialHistoryDepth : UInt32 := 1000

/-- `TopicQoS()` while `default_history_depth` is `d`. -/
def defaultTopicQoS (d : UInt32) : TopicQoS := { historyDepth := d.toNat }

variable (d : UInt32)

def getDdsTopic (yml : Yaml) : Reading DdsTopic := do
  let topicName ← getIn yml "name" getString
  let typeName ← getIn yml "type" getString
  let keyed ← ifPresent yml "keyed" (getIn yml "keyed" (getBool env))
  let qos ← ifPresent yml "qos" (getValueInTag yml "qos" >>= fillTopicQoS env (defaultTopicQoS d))
  return {
    topicName := topicName, typeName := typeName, keyed := keyed.getD false
    topicQos := qos.getD (defaultTopicQoS d) }

/-- A fuzzy member after `operator =`, or as it was constructed. -/
def fuzzyOf {α : Type} (default : α) : Option α → Fuzzy α
  | some a => ⟨a, env.assignedLevel⟩
  | none => ⟨default, env.unsetLevel⟩

/-- The QoS of a filter is not read. -/
def getWildcardDdsFilterTopic (yml : Yaml) : Reading WildcardDdsFilterTopic := do
  let topicName ← getIn yml "name" getString
  let typeName ← ifPresent yml "type" (getIn yml "type" getString)
  let keyed ← ifPresent yml "keyed" (getIn yml "keyed" (getBool env))
  return { topicName := topicName, typeName := fuzzyOf env "" typeName, keyed := fuzzyOf env false keyed }

/-- `DdsFilterTopic::operator <`: by their texts, the greater one first. -/
abbrev filterOrder (u : FuzzyUtils) : WeakOrder WildcardDdsFilterTopic :=
  WeakOrder.ofKey fun f => OrderDual.toDual (f.text u)

/-- A set of filters, in its order. -/
def getFilters (yml : Yaml) (tag : String) : Reading (List WildcardDdsFilterTopic) :=
  letI := filterOrder env.fuzzy
  return (← getSet (getWildcardDdsFilterTopic env) yml tag).keys

/-! ### Participants -/

/-- Active for all that its files allow. -/
def getTlsConfiguration (yml : Yaml) : Reading TlsConfiguration := do
  let privateKey ← ifPresent yml "private_key" (getIn yml "private_key" getString)
  let password ← ifPresent yml "password" (getIn yml "password" getString)
  let ca ← ifPresent yml "ca" (getIn yml "ca" getString)
  let cert ← ifPresent yml "cert" (getIn yml "cert" getString)
  let sniHost ← ifPresent yml "sni_host" (getIn yml "sni_host" getString)
  let dhParams ← ifPresent yml "dh_params" (getIn yml "dh_params" getString)
  let verifyPeer ← ifPresent yml "peer_verification" (getIn yml "peer_verification" (getBool env))
  let c : TlsConfiguration :=
    { privateKeyFile := privateKey.getD "", privateKeyFilePassword := password.getD ""
      certificateAuthorityFile := ca.getD "", certificateChainFile := cert.getD "", sniServerName := sniHost.getD ""
      dhParamsFile := dhParams.getD "", verifyPeer := verifyPeer.getD true }
  if c.bothError.isNone then return { c with kind := .both }
  else if c.clientError.isNone then return { c with kind := .client }
  else if c.serverError.isNone then return { c with kind := .server }
  else throw (.incorrectTls c.clientError c.serverError)

def getTls (yml : Yaml) : Reading TlsConfiguration :=
  return (← ifPresent yml "tls" (getValueInTag yml "tls" >>= getTlsConfiguration env)).getD {}

def getAddresses (yml : Yaml) (tag : String) : Reading AddressSet :=
  return (← ifPresent yml tag (getSet (getAddress env) yml tag)).getD OrdMap.empty

variable (version : YamlReaderVersion)

def getParticipantConfiguration (yml : Yaml) : Reading ParticipantConfiguration := do
  let id ← getIn yml "name" getParticipantId
  let kind ← getIn yml "kind" (getParticipantKind env version)
  return { id := id, kind := kind }

def getEchoParticipantConfiguration (yml : Yaml) : Reading EchoParticipantConfiguration := do
  let base ← getParticipantConfiguration env version yml
  let data ← ifPresent yml "data" (getIn yml "data" (getBool env))
  let discovery ← ifPresent yml "discovery" (getIn yml "discovery" (getBool env))
  let verbose ← ifPresent yml "verbose" (getIn yml "verbose" (getBool env))
  return { base with echoData := data.getD false, echoDiscovery := discovery.getD true, verbose := verbose.getD false }

def getSimpleParticipantConfiguration (yml : Yaml) : Reading SimpleParticipantConfiguration := do
  let base ← getParticipantConfiguration env version yml
  let domain ← ifPresent yml "domain" (getIn yml "domain" (getUInt32 env))
  return { base with domain := domain.getD 0 }

def getServerConnections (yml : Yaml) : Reading (OrdMap DiscoveryServerConnectionAddress Unit) :=
  return (← ifPresent yml "connection-addresses"
    (getSet (getDiscoveryServerConnectionAddress env version) yml "connection-addresses")).getD OrdMap.empty

def getDiscoveryServerParticipantConfiguration (yml : Yaml) : Reading DiscoveryServerParticipantConfiguration := do
  let base ← getSimpleParticipantConfiguration env version yml
  let listening ← getAddresses env yml "listening-addresses"
  let connection ← getServerConnections env version yml
  let tls ← getTls env yml
  let guid ← getServerGuidPrefix env version yml
  return { base with
    listeningAddresses := listening, connectionAddresses := connection, tlsConfiguration := tls
    discoveryServerGuidPrefix := guid }

def getInitialPeersParticipantConfiguration (yml : Yaml) : Reading InitialPeersParticipantConfiguration := do
  let base ← getSimpleParticipantConfiguration env version yml
  let listening ← getAddresses env yml "listening-addresses"
  let connection ← getAddresses env yml "connection-addresses"
  let tls ← getTls env yml
  let repeater ← ifPresent yml "repeater" (getIn yml "repeater" (getBool env))
  return { base with
    isRepeater := repeater.getD false, listeningAddresses := listening, connectionAddresses := connection
    tlsConfiguration := tls }

/-- What a pointer to a `ParticipantConfiguration` may point to. -/
inductive AnyParticipantConfiguration where
  | plain (c : ParticipantConfiguration)
  | echo (c : EchoParticipantConfiguration)
  | simple (c : SimpleParticipantConfiguration)
  | discoveryServer (c : DiscoveryServerParticipantConfiguration)
  | initialPeers (c : InitialPeersParticipantConfiguration)

/-- The kind decides what is read. -/
def getParticipant (yml : Yaml) : Reading AnyParticipantConfiguration := do
  match ← getIn yml "kind" (getParticipantKind env version) with
  | .blank | .dummy => return .plain (← getParticipantConfiguration env version yml)
  | .echo => return .echo (← getEchoParticipantConfiguration env version yml)
  | .simpleRtps => return .simple (← getSimpleParticipantConfiguration env version yml)
  | .localDiscoveryServer | .wanDiscoveryServer =>
    return .discoveryServer (← getDiscoveryServerParticipantConfiguration env version yml)
  | .wanInitialPeers => return .initialPeers (← getInitialPeersParticipantConfiguration env version yml)
  | .invalid => throw (.unknownKind (← getIn yml "kind" getString))

/-! ### The router -/

structure SpecsConfiguration where
  numberOfThreads : UInt32 := 12
  maxHistoryDepth : UInt32 := 5000
  deriving DecidableEq, Repr

/-- The sets of pointers of the source, in the order in which they are filled. -/
structure DDSRouterConfiguration extends Router.ReloadConfiguration where
  participantsConfigurations : List AnyParticipantConfiguration := []
  advancedOptions : SpecsConfiguration := {}

def getSpecsConfiguration (yml : Yaml) : Reading SpecsConfiguration := do
  let threads ← ifPresent yml "threads" (getIn yml "threads" (getUInt32 env))
  let maxDepth ← ifPresent yml "max-depth" (getIn yml "max-depth" (getUInt32 env))
  return { numberOfThreads := threads.getD 12, maxHistoryDepth := maxDepth.getD 5000 }

/-- `ddsrouter_tags`. -/
def ddsrouterTags : List String :=
  ["allowlist", "blocklist", "name", "type", "keyed", "kind", "name", "participants", "domain",
    "discovery-server-guid", "listening-addresses", "connection-addresses", "addresses", "tls", "ca", "password",
    "private_key", "cert", "dh_params", "sni_host", "ip", "domain", "port", "ip-version", "v4", "v6", "transport",
    "udp", "tcp", "guid", "id", "ros-discovery-server", "version", "v1.0", "v2.0", "v3.0", "type"]

def isTag (str : String) : Bool := ddsrouterTags.contains str

/-- `DdsTopic::is_valid_dds_topic`. -/
def isValidDdsTopic (topicName typeName : String) : Bool :=
  DdsTopic.isValid { topicName := topicName, typeName := typeName }

/-- A filter that names one topic stands for that topic too. -/
def builtinOfFilter (f : WildcardDdsFilterTopic) : Option DdsTopic :=
  if isValidDdsTopic f.topicName f.typeName.value then
    some {
      topicName := f.topicName, typeName := f.typeName.value, keyed := (env.fuzzy.get? f.keyed).getD false
      topicQos := defaultTopicQoS d }
  else none

/-- A participant of version 1.0 has its name as key and its kind as type. -/
def getParticipantV1 (entry : String × Yaml) : Reading AnyParticipantConfiguration :=
  match entry.2 with
  | .map entries =>
    match entries.lookup "type" with
    | some kind =>
      getParticipant env .v1_0 (.map (assign "kind" kind (assign "name" (.scalar entry.1) entries)))
    | none => throw .participantWithoutType
  | _ => throw .participantNotMap

/-- The entries over which a map is iterated. -/
def entriesOf : Yaml → List (String × Yaml)
  | .map entries => entries
  | _ => []

def getAllFilters (yml : Yaml) (tag : String) : Reading (List WildcardDdsFilterTopic) :=
  return (← ifPresent yml tag (getFilters env yml tag)).getD []

def fillDdsrouterConfigurationV1 (yml : Yaml) : Reading DDSRouterConfiguration := do
  let allowlist ← getAllFilters env yml "allowlist"
  let blocklist ← getAllFilters env yml "blocklist"
  let participants ← ((entriesOf yml).filter fun e => !isTag e.1).mapM (getParticipantV1 env)
  return {
    allowlist := allowlist, blocklist := blocklist, builtinTopics := allowlist.filterMap (builtinOfFilter env d)
    participantsConfigurations := participants }

/-- `participants` must be there and be a sequence. -/
def getParticipants (yml : Yaml) : Reading (List AnyParticipantConfiguration) := do
  match ← getValueInTag yml "participants" with
  | .sequence elements => elements.mapM (getParticipant env version)
  | _ => throw .participantsNotSequence

def fillDdsrouterConfigurationLatest (yml : Yaml) : Reading DDSRouterConfiguration := do
  let allowlist ← getAllFilters env yml "allowlist"
  let blocklist ← getAllFilters env yml "blocklist"
  let builtin ← ifPresent yml "builtin-topics" (getSet (getDdsTopic env d) yml "builtin-topics")
  let participants ← getParticipants env version yml
  let specs ← ifPresent yml "specs" (getValueInTag yml "specs" >>= getSpecsConfiguration env)
  return {
    allowlist := allowlist, blocklist := blocklist, builtinTopics := (builtin.map OrdMap.keys).getD []
    participantsConfigurations := participants, advancedOptions := specs.getD {} }

/-- `YamlReader::get` of a `DDSRouterConfiguration`, while the process has `d` as default
depth. -/
def getDDSRouterConfiguration (yml : Yaml) : Reading DDSRouterConfiguration :=
  match version with
  | .v1_0 => fillDdsrouterConfigurationV1 env d yml
  | _ => fillDdsrouterConfigurationLatest env d version yml

end YamlReader

end DDSRouter.Configuration
