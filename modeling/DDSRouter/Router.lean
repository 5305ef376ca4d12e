import DDSRouter.Discovery
import DDSRouter.Filters
import DDSRouter.RPCBridge

/-!
# The router

`DDSRouterImpl` with its two families of bridges. Every operation holds the
mutex of the router, so an operation is one step. A topic bridge is seen here
with its enabled flag alone, a service bridge with its servers and registries.
The construction of bridges and of their endpoints is taken not to fail.
-/
namespace DDSRouter.Router

/-- What the router is built over: the functions of `cpp_utils`, and the ids of
its RTPS participants, in the order of the set. -/
structure Env where
  utils : CppUtils
  rtpsParticipantsIds : List ParticipantId

/-- A `DDSBridge` as the router sees it. -/
structure TopicBridge where
  topic : DdsTopic
  enabled : Bool
  deriving DecidableEq, Repr

structure State where
  enabled : Bool := false
  allowedTopics : AllowedTopicList
  currentTopics : OrdMap DdsTopic Bool := OrdMap.empty
  bridges : OrdMap DdsTopic TopicBridge := OrdMap.empty
  currentServices : OrdMap RPCTopic Bool := OrdMap.empty
  rpcBridges : OrdMap RPCTopic RPCBridge := OrdMap.empty

structure ReloadConfiguration where
  allowlist : List WildcardDdsFilterTopic := []
  blocklist : List WildcardDdsFilterTopic := []
  builtinTopics : List DdsTopic := []
  deriving DecidableEq, Repr

/-- Null pointers apart, only the builtin topics are checked. -/
def ReloadConfiguration.isValid (c : ReloadConfiguration) : Bool := c.builtinTopics.all DdsTopic.isValid

/-! ### Topics -/

def activateTopic (s : State) (t : DdsTopic) : State :=
  let s := { s with currentTopics := s.currentTopics.set t true }
  match s.bridges.find t with
  | none => { s with bridges := s.bridges.set t { topic := t, enabled := true } }
  | some b => { s with bridges := s.bridges.set t { b with enabled := true } }

def deactivateTopic (s : State) (t : DdsTopic) : State :=
  let s := { s with currentTopics := s.currentTopics.set t false }
  match s.bridges.find t with
  | none => s
  | some b => { s with bridges := s.bridges.set t { b with enabled := false } }

variable (env : Env)

def topicAllowed (s : State) (t : DdsTopic) : Bool := s.allowedTopics.isTopicAllowed env.utils t

def serviceAllowed (s : State) (t : RPCTopic) : Bool := s.allowedTopics.isServiceAllowed env.utils t

/-- The body of the loop of `activate_all_topics_`. -/
def activateIfAllowed (s : State) (t : DdsTopic) : State :=
  if topicAllowed env s t then activateTopic s t else s

def activateAllTopics (s : State) : State := s.currentTopics.keys.foldl (activateIfAllowed env) s

def deactivateAllTopics (s : State) : State := s.currentTopics.keys.foldl deactivateTopic s

def discoveredTopic (s : State) (t : DdsTopic) : State :=
  if s.currentTopics.contains t then s
  else
    let s := { s with currentTopics := s.currentTopics.set t false }
    if s.enabled && topicAllowed env s t then activateTopic s t else s

/-- The body of the loop over the topics in `reload_configuration`. -/
def reloadTopic (s : State) (t : DdsTopic) : State :=
  match s.currentTopics.find t with
  | some true => if !topicAllowed env s t then deactivateTopic s t else s
  | _ => if topicAllowed env s t then activateTopic s t else s

/-! ### Services -/

/-- `rpc_bridges_[t]->f()`; a service of the router has its bridge. -/
def updateBridge (s : State) (t : RPCTopic) (f : RPCBridge → RPCBridge) : State :=
  match s.rpcBridges.find t with
  | some b => { s with rpcBridges := s.rpcBridges.set t (f b) }
  | none => s

def enableBridge (b : RPCBridge) : RPCBridge := b.enable (fun _ => .ok) env.rtpsParticipantsIds

/-- The body of the loop over the services in `start_`. -/
def startService (s : State) (t : RPCTopic) : State :=
  if s.currentServices.find t = some true then updateBridge s t (enableBridge env) else s

/-- The body of the loop over the services in `reload_configuration`. -/
def reloadService (s : State) (t : RPCTopic) : State :=
  if serviceAllowed env s t then
    updateBridge { s with currentServices := s.currentServices.set t true } t (enableBridge env)
  else
    updateBridge { s with currentServices := s.currentServices.set t false } t RPCBridge.disable

def createNewService (s : State) (t : RPCTopic) : State :=
  { s with rpcBridges := s.rpcBridges.set t { topic := t } }

/-- The service and its bridge, created where there is no bridge yet. -/
def ensureService (s : State) (t : RPCTopic) : State :=
  if s.rpcBridges.contains t then s
  else
    let s := createNewService s t
    { s with currentServices := s.currentServices.set t (serviceAllowed env s t) }

def enableIfActive (s : State) (t : RPCTopic) : State :=
  if s.enabled && (s.currentServices.find t).getD false then updateBridge s t (enableBridge env) else s

def discoveredService (s : State) (t : RPCTopic) (id : ParticipantId) (g : GuidPrefix) : State :=
  enableIfActive env (updateBridge (ensureService env s t) t fun b => b.discoveredService id g) t

def removedService (s : State) (t : RPCTopic) (id : ParticipantId) (g : GuidPrefix) : State :=
  updateBridge s t fun b => b.removedService id g

/-! ### Entry points -/

def start (s : State) : ReturnCode × State :=
  if !s.enabled then
    let s := activateAllTopics env { s with enabled := true }
    (.ok, s.currentServices.keys.foldl (startService env) s)
  else (.preconditionNotMet, s)

/-- The service bridges are not disabled. -/
def stop (s : State) : ReturnCode × State :=
  if s.enabled then (.ok, deactivateAllTopics { s with enabled := false }) else (.preconditionNotMet, s)

/-- The builtin topics that are new, each once and in the order of the set. -/
def newBuiltinTopics (s : State) (c : ReloadConfiguration) : OrdMap DdsTopic Unit :=
  c.builtinTopics.foldl (fun m t => if s.currentTopics.contains t then m else m.set t ()) OrdMap.empty

/-- `none` where the source throws on an invalid configuration. -/
def reloadConfiguration (s : State) (c : ReloadConfiguration) : Option (ReturnCode × State) :=
  if !c.isValid then none
  else if s.enabled then
    let list := AllowedTopicList.create c.allowlist c.blocklist
    let builtin := newBuiltinTopics s c
    if list.equal env.utils.toFuzzyUtils s.allowedTopics && builtin.keys.isEmpty then some (.noData, s)
    else
      let s := { s with allowedTopics := list }
      let s := s.currentTopics.keys.foldl (reloadTopic env) s
      let s := builtin.keys.foldl (discoveredTopic env) s
      some (.ok, s.currentServices.keys.foldl (reloadService env) s)
  else some (.notEnabled, s)

def discoveredEndpoint (s : State) (e : Endpoint) : State :=
  if e.isReader then
    if !RPCTopic.isServiceTopic e.topic then discoveredTopic env s e.topic
    else if e.isServerEndpoint then
      discoveredService env s (RPCTopic.ofTopic e.topic) e.discovererParticipantId e.guid.guidPrefix
    else s
  else s

def removedEndpoint (s : State) (e : Endpoint) : State :=
  if RPCTopic.isServiceTopic e.topic then
    if e.isServerEndpoint then
      removedService s (RPCTopic.ofTopic e.topic) e.discovererParticipantId e.guid.guidPrefix
    else s
  else s

/-- A router as its constructor leaves it, with the bridges of the builtin
topics not activated. -/
def create (c : ReloadConfiguration) : State :=
  c.builtinTopics.foldl (discoveredTopic env)
    { allowedTopics := AllowedTopicList.create c.allowlist c.blocklist }

inductive Action where
  | start
  | stop
  | reload (c : ReloadConfiguration)
  | discovered (e : Endpoint)
  | removed (e : Endpoint)
  deriving DecidableEq, Repr

/-- A reload with an invalid configuration is not a step. -/
def step (s : State) : Action → Option State
  | .start => some (start env s).2
  | .stop => some (stop s).2
  | .reload c => (reloadConfiguration env s c).map Prod.snd
  | .discovered e => some (discoveredEndpoint env s e)
  | .removed e => some (removedEndpoint s e)

end DDSRouter.Router
