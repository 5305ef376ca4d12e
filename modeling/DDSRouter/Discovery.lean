import DDSRouter.Types

/-!
# The discovery database

Endpoints that the participants have discovered, by their full guid. An
operation taken from the queue either changes the database and calls the
callbacks, or throws and changes nothing; the exception is caught where the
queue is processed.
-/
namespace DDSRouter

inductive EndpointKind where
  | invalid | reader | writer
  deriving DecidableEq, Repr

structure SpecificEndpointQoS where
  partitions : List String := []
  ownershipStrength : BitVec 32 := 0
  deriving DecidableEq, Repr

structure Endpoint where
  kind : EndpointKind
  guid : Guid
  topic : DdsTopic
  active : Bool := true
  discovererParticipantId : ParticipantId
  specificQos : SpecificEndpointQoS := {}
  deriving DecidableEq, Repr

namespace Endpoint

def isWriter (e : Endpoint) : Bool := e.kind = .writer

def isReader (e : Endpoint) : Bool := e.kind = .reader

def isServerEndpoint (e : Endpoint) : Bool :=
  e.isReader && RPCTopic.isRequestTopic e.topic || e.isWriter && RPCTopic.isReplyTopic e.topic

/-- `operator =`, which leaves the specific QoS of the target as it is. -/
def assign (old new : Endpoint) : Endpoint := { new with specificQos := old.specificQos }

end Endpoint

structure DiscoveryDatabase where
  entities : OrdMap Guid Endpoint := OrdMap.empty

/-- What an operation makes the callbacks do. -/
inductive DiscoveryEvent where
  | discovered (e : Endpoint)
  | updated (e : Endpoint)
  | erased (e : Endpoint)
  deriving DecidableEq, Repr

inductive DatabaseOperation where
  | add (e : Endpoint)
  | update (e : Endpoint)
  | erase (e : Endpoint)
  deriving DecidableEq, Repr

namespace DiscoveryDatabase

/-- An entry that is inactive is modified without a callback. -/
def addEndpoint (db : DiscoveryDatabase) (e : Endpoint) : Option (DiscoveryDatabase × Option DiscoveryEvent) :=
  match db.entities.find e.guid with
  | some old =>
    if old.active then none else some ({ entities := db.entities.set e.guid (old.assign e) }, none)
  | none => some ({ entities := db.entities.set e.guid e }, some (.discovered e))

def updateEndpoint (db : DiscoveryDatabase) (e : Endpoint) :
    Option (DiscoveryDatabase × Option DiscoveryEvent) :=
  match db.entities.find e.guid with
  | some old => some ({ entities := db.entities.set e.guid (old.assign e) }, some (.updated e))
  | none => none

def eraseEndpoint (db : DiscoveryDatabase) (e : Endpoint) :
    Option (DiscoveryDatabase × Option DiscoveryEvent) :=
  if db.entities.contains e.guid then some ({ entities := db.entities.erase e.guid }, some (.erased e))
  else none

/-- One operation of the queue: the new database and the callback that follows. -/
def process (db : DiscoveryDatabase) (op : DatabaseOperation) : DiscoveryDatabase × Option DiscoveryEvent :=
  (match op with
    | .add e => db.addEndpoint e
    | .update e => db.updateEndpoint e
    | .erase e => db.eraseEndpoint e).getD (db, none)

end DiscoveryDatabase

end DDSRouter
