import DDSRouter.Discovery
import DDSRouter.Writer

/-!
# Discovery by the participants

An RTPS participant is told of every remote endpoint that appears, changes or goes
away. It makes an `Endpoint` of what it is told and hands it to the discovery
database.
-/
namespace DDSRouter

inductive DiscoveryStatus where
  | discovered | changedQos | removed | dropped
  deriving DecidableEq, Repr

/-- What Fast DDS reports of an endpoint. The strength is that of a writer. -/
structure EndpointInfo where
  guid : Guid
  topicName : String
  typeName : String
  withKey : Bool := false
  durability : DurabilityKind := .volatile
  reliability : ReliabilityKind := .bestEffort
  partition : List String := []
  ownership : OwnershipKind := .shared
  ownershipStrength : BitVec 32 := 0
  deriving DecidableEq, Repr

namespace CommonParticipant

/-- The topic of an endpoint with the QoS found; the history depth is the default that
the process holds at that moment. -/
def discoveredTopic (depth : Nat) (info : EndpointInfo) : DdsTopic where
  topicName := info.topicName
  typeName := info.typeName
  keyed := info.withKey
  topicQos :=
    { durabilityQos := info.durability
      reliabilityQos := info.reliability
      usePartitions := !info.partition.isEmpty
      ownershipQos := info.ownership
      historyDepth := depth }

def createCommonEndpointFromInfo (p : CommonParticipant) (depth : Nat) (info : EndpointInfo) : Endpoint where
  kind := .invalid
  guid := info.guid
  topic := discoveredTopic depth info
  discovererParticipantId := p.id
  specificQos := if (discoveredTopic depth info).topicQos.hasPartitions then { partitions := info.partition } else {}

def createReaderFromInfo (p : CommonParticipant) (depth : Nat) (info : EndpointInfo) : Endpoint :=
  { p.createCommonEndpointFromInfo depth info with kind := .reader }

def createWriterFromInfo (p : CommonParticipant) (depth : Nat) (info : EndpointInfo) : Endpoint :=
  let endpoint := p.createCommonEndpointFromInfo depth info
  let endpoint :=
    if endpoint.topic.topicQos.hasOwnership then
      { endpoint with specificQos := { endpoint.specificQos with ownershipStrength := info.ownershipStrength } }
    else endpoint
  { endpoint with kind := .writer }

/-- The operation that a report pushes into the queue of the database. -/
def operationOf (endpoint : Endpoint) : DiscoveryStatus → DatabaseOperation
  | .discovered => .add endpoint
  | .changedQos => .update endpoint
  | .removed | .dropped => .erase { endpoint with active := false }

/-- The shared form of the two listeners: endpoints of the participant itself are
passed over. -/
def onDiscovery (create : CommonParticipant → Nat → EndpointInfo → Endpoint) (p : CommonParticipant) (depth : Nat)
    (info : EndpointInfo) (status : DiscoveryStatus) : Option DatabaseOperation :=
  if info.guid.guidPrefix ≠ p.guidPrefix then some (operationOf (create p depth info) status) else none

def onReaderDiscovery : CommonParticipant → Nat → EndpointInfo → DiscoveryStatus → Option DatabaseOperation :=
  onDiscovery createReaderFromInfo

def onWriterDiscovery : CommonParticipant → Nat → EndpointInfo → DiscoveryStatus → Option DatabaseOperation :=
  onDiscovery createWriterFromInfo

end CommonParticipant

end DDSRouter
