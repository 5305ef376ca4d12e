import DDSRouter.BridgeCreation
import DDSRouter.Lib.Exceptions
import DDSRouter.Lib.Runs
import DDSRouter.Writer

/-!
# Creation of endpoints under `noexcept`

Fast DDS can refuse to create or to register an endpoint, which the code reports by
an `InitializationException`. Endpoints are created when a topic gets its bridge,
when a service is enabled for the first time, and when a `MultiWriter` is given
data with a QoS that is new to it. All three happen inside functions that are
declared `noexcept`. An exception that leaves one of them ends the process.

Every entry point of the router is a program that can throw, with the `try` blocks
and the `noexcept` declarations where the source has them. The answers of Fast DDS
are a sequence, one for each endpoint that is asked for.
-/
namespace DDSRouter.Noexcept

open Exceptions Exceptions.Prog Runs

/-- The places where the code throws. -/
inductive InitializationException where
  | writerExists (id : ParticipantId) (topic : DdsTopic)
  | readerExists (id : ParticipantId) (topic : DdsTopic)
  | writerNotCreated (id : ParticipantId) (topic : DdsTopic)
  | writerNotRegistered (id : ParticipantId) (topic : DdsTopic)
  | readerNotCreated (id : ParticipantId) (topic : DdsTopic)
  | readerNotRegistered (id : ParticipantId) (topic : DdsTopic)
  deriving DecidableEq, Repr

/-- What Fast DDS answers when an endpoint is created and then registered. -/
structure EndpointAnswer where
  created : Bool := true
  registered : Bool := true
  entityId : EntityId := 0
  deriving DecidableEq, Repr

/-- Participants by how they create endpoints. An `EchoParticipant` is a
`BlankParticipant` with other writers, which do not throw. -/
inductive Participant where
  | blank
  | dummy (isRepeater : Bool)
  | rtps (p : CommonParticipant)
  deriving DecidableEq, Repr

structure Env where
  utils : CppUtils
  ids : List ParticipantId
  participant : ParticipantId → Participant
  fastDds : Nat → EndpointAnswer

/-- Writers that a `BaseParticipant` keeps. -/
inductive Writer where
  | dummy
  | rtps (w : IWriter)

/-- `thrown` has every exception, `errors` those that were logged. -/
structure State where
  router : Router.State
  participants : ParticipantId → BaseParticipant Writer Unit := fun _ => {}
  asked : Nat := 0
  thrown : List InitializationException := []
  errors : List InitializationException := []

abbrev Program (α : Type) := Prog InitializationException State α

namespace Env

def isRepeater (env : Env) (id : ParticipantId) : Bool :=
  match env.participant id with
  | .blank => false
  | .dummy b => b
  | .rtps p => p.isRepeater

def isRtps (env : Env) (id : ParticipantId) : Bool :=
  match env.participant id with
  | .rtps _ => true
  | _ => false

def rtpsIds (env : Env) : List ParticipantId := env.ids.filter env.isRtps

def router (env : Env) : Router.Env := { utils := env.utils, rtpsParticipantsIds := env.rtpsIds }

/-- The writers of the track that has the reader of `source`. -/
def targets (env : Env) (source : ParticipantId) : List ParticipantId :=
  env.ids.filter fun id => id ≠ source || env.isRepeater source

end Env

namespace State

def writer (s : State) (id : ParticipantId) (topic : DdsTopic) : Option Writer := (s.participants id).writers.find topic

def setWriter (s : State) (id : ParticipantId) (topic : DdsTopic) (w : Writer) : State :=
  { s with
    participants := Function.update s.participants id
      { s.participants id with writers := (s.participants id).writers.set topic w } }

def setReader (s : State) (id : ParticipantId) (topic : DdsTopic) : State :=
  { s with
    participants := Function.update s.participants id
      { s.participants id with readers := (s.participants id).readers.set topic () } }

/-- The same change to the RTPS writers of some participants in a topic. -/
def mapWriters (s : State) (ids : List ParticipantId) (topic : DdsTopic) (f : IWriter → IWriter) : State :=
  ids.foldl (fun s id =>
    match s.writer id topic with
    | some (.rtps w) => s.setWriter id topic (.rtps (f w))
    | _ => s) s

def setBridge (s : State) (topic : DdsTopic) (b : Router.TopicBridge) : State :=
  { s with router := { s.router with bridges := s.router.bridges.set topic b } }

def updateService (s : State) (t : RPCTopic) (f : RPCBridge → RPCBridge) : State :=
  { s with router := Router.updateBridge s.router t f }

end State

/-! ### Endpoints -/

def throwInitialization {α : Type} (e : InitializationException) : Program α := do
  modify fun s => { s with thrown := s.thrown ++ [e] }
  throw e

def logError (e : InitializationException) : Program Unit :=
  modify fun s => { s with errors := s.errors ++ [e] }

/-- The next answer of Fast DDS. -/
def ask (env : Env) : Program EndpointAnswer := do
  let s ← get
  modify fun s => { s with asked := s.asked + 1 }
  return env.fastDds s.asked

/-- `CommonWriter::init`, that is `internal_entities_creation_`. -/
def initWriter (env : Env) (id : ParticipantId) (topic : DdsTopic) (w : EntityId → CommonWriter) :
    Program CommonWriter := do
  let a ← ask env
  if !a.created then throwInitialization (.writerNotCreated id topic)
  else if !a.registered then throwInitialization (.writerNotRegistered id topic)
  else return w a.entityId

/-- `CommonReader::init`. -/
def initReader (env : Env) (id : ParticipantId) (topic : DdsTopic) : Program Unit := do
  let a ← ask env
  if !a.created then throwInitialization (.readerNotCreated id topic)
  else if !a.registered then throwInitialization (.readerNotRegistered id topic)
  else return ()

/-- `CommonParticipant::create_writer_`. A `MultiWriter` needs no `init`. -/
def createRtpsWriter (env : Env) (p : CommonParticipant) (topic : DdsTopic) : Program IWriter := do
  if topic.topicQos.hasPartitions || topic.topicQos.hasOwnership then
    return .multi { guidPrefix := p.guidPrefix, topic := topic, repeater := p.isRepeater }
  else
    let w ← initWriter env p.id topic fun e => { guid := ⟨p.guidPrefix, e⟩, topic := topic, repeater := p.isRepeater }
    return .simple w

/-- `BaseParticipant::create_writer`, over the `create_writer_` of the participant. -/
def registerWriter (id : ParticipantId) (topic : DdsTopic) (createWriter : Program Writer) : Program Unit := do
  let s ← get
  if (s.participants id).writers.contains topic then throwInitialization (.writerExists id topic)
  else
    let w ← createWriter
    modify fun s => s.setWriter id topic w

/-- `BaseParticipant::create_reader`. -/
def registerReader (id : ParticipantId) (topic : DdsTopic) (createReader : Program Unit) : Program Unit := do
  let s ← get
  if (s.participants id).readers.contains topic then throwInitialization (.readerExists id topic)
  else
    createReader
    modify fun s => s.setReader id topic

def createWriter (env : Env) (id : ParticipantId) (topic : DdsTopic) : Program Unit :=
  match env.participant id with
  | .blank => return ()
  | .dummy _ => registerWriter id topic (return .dummy)
  | .rtps p => registerWriter id topic do
    let w ← createRtpsWriter env p topic
    return .rtps w

def createReader (env : Env) (id : ParticipantId) (topic : DdsTopic) : Program Unit :=
  match env.participant id with
  | .blank => return ()
  | .dummy _ => registerReader id topic (return ())
  | .rtps p => registerReader id topic (initReader env p.id topic)

/-! ### Bridges of topics -/

/-- The endpoints that the tracks of a bridge switch on. -/
def enableTracks (env : Env) (topic : DdsTopic) : Program Unit :=
  noexcept (modify fun s => s.mapWriters (env.ids.flatMap env.targets) topic IWriter.enable)

def disableTracks (env : Env) (topic : DdsTopic) : Program Unit :=
  noexcept (modify fun s => s.mapWriters (env.ids.flatMap env.targets) topic IWriter.disable)

/-- The constructor of a `DDSBridge` that is created enabled. -/
def newBridge (env : Env) (topic : DdsTopic) : Program Router.TopicBridge := do
  env.ids.forM fun id => do
    createWriter env id topic
    createReader env id topic
  enableTracks env topic
  return { topic := topic, enabled := true }

def createNewBridge (env : Env) (topic : DdsTopic) : Program Unit :=
  noexcept <| tryCatch
    (do
      let b ← newBridge env topic
      modify fun s => s.setBridge topic b)
    logError

def activateTopic (env : Env) (topic : DdsTopic) : Program Unit :=
  noexcept do
    modify fun s => { s with router := { s.router with currentTopics := s.router.currentTopics.set topic true } }
    let s ← get
    match s.router.bridges.find topic with
    | none => createNewBridge env topic
    | some b =>
      enableTracks env topic
      modify fun s => s.setBridge topic { b with enabled := true }

def deactivateTopic (env : Env) (topic : DdsTopic) : Program Unit :=
  noexcept do
    modify fun s => { s with router := { s.router with currentTopics := s.router.currentTopics.set topic false } }
    let s ← get
    match s.router.bridges.find topic with
    | none => return ()
    | some b =>
      disableTracks env topic
      modify fun s => s.setBridge topic { b with enabled := false }

/-! ### Bridges of services -/

def createProxyClientNts (env : Env) (t : RPCTopic) (id : ParticipantId) : Program Unit := do
  createWriter env id t.requestTopic
  createReader env id t.replyTopic
  modify fun s => s.updateService t fun b => { b with serviceRegistries := b.serviceRegistries.set id {} }

def createProxyServerNts (env : Env) (t : RPCTopic) (id : ParticipantId) : Program Unit := do
  createWriter env id t.replyTopic
  createReader env id t.requestTopic

def initNts (env : Env) (t : RPCTopic) : Program Unit := do
  env.rtpsIds.forM fun id => do
    createProxyClientNts env t id
    createProxyServerNts env t id
    modify fun s => s.updateService t fun b =>
      { b with
        currentServers := b.currentServers.set id (b.servers id)
        serviceRegistries := b.serviceRegistries.set id { enabled := b.servers id ≠ ∅ } }
  modify fun s => s.updateService t fun b => { b with init := true }

/-- The same change to the writers of both topics of a service. -/
def switchService (env : Env) (t : RPCTopic) (f : IWriter → IWriter) (s : State) : State :=
  (s.mapWriters env.rtpsIds t.requestTopic f).mapWriters env.rtpsIds t.replyTopic f

/-- The `try` block of `RPCBridge::enable`, and whether it came to its end. -/
def tryInit (env : Env) (t : RPCTopic) : Program Bool :=
  tryCatch
    (do
      initNts env t
      return true)
    fun e => do
      logError e
      return false

def initialise (env : Env) (t : RPCTopic) (b : RPCBridge) : Program Bool :=
  if !b.init then tryInit env t else return true

/-- `RPCBridge::enable`. -/
def enableService (env : Env) (t : RPCTopic) : Program Unit :=
  noexcept do
    let s ← get
    match s.router.rpcBridges.find t with
    | none => return ()
    | some b =>
      if !b.enabled && b.serversAvailable then
        let initialised ← initialise env t b
        if initialised then
          modify fun s => (switchService env t IWriter.enable s).updateService t fun b => { b with enabled := true }
        else return ()
      else return ()

/-- `RPCBridge::disable`. -/
def disableService (env : Env) (t : RPCTopic) : Program Unit :=
  noexcept do
    let s ← get
    match s.router.rpcBridges.find t with
    | none => return ()
    | some b =>
      if b.enabled then
        modify fun s => (switchService env t IWriter.disable s).updateService t RPCBridge.disable
      else return ()

/-! ### Entry points of the router -/

def activateAllTopics (env : Env) : Program Unit :=
  noexcept do
    let s ← get
    s.router.currentTopics.keys.forM fun t => do
      let s ← get
      if Router.topicAllowed env.router s.router t then activateTopic env t

def deactivateAllTopics (env : Env) : Program Unit :=
  noexcept do
    let s ← get
    s.router.currentTopics.keys.forM (deactivateTopic env)

def discoveredTopic (env : Env) (t : DdsTopic) : Program Unit :=
  noexcept do
    let s ← get
    if s.router.currentTopics.contains t then return ()
    else
      modify fun s => { s with router := { s.router with currentTopics := s.router.currentTopics.set t false } }
      if s.router.enabled && Router.topicAllowed env.router s.router t then activateTopic env t

def discoveredService (env : Env) (t : RPCTopic) (id : ParticipantId) (g : GuidPrefix) : Program Unit :=
  noexcept do
    modify fun s => { s with router := Router.ensureService env.router s.router t }
    modify fun s => s.updateService t fun b => b.discoveredService id g
    let s ← get
    if s.router.enabled && (s.router.currentServices.find t).getD false then enableService env t

def removedService (env : Env) (t : RPCTopic) (id : ParticipantId) (g : GuidPrefix) : Program Unit :=
  noexcept do
    modify fun s => s.updateService t fun b => b.eraseServer id g
    let s ← get
    match s.router.rpcBridges.find t with
    | none => return ()
    | some b => if b.servers id = ∅ ∧ !b.serversAvailable then disableService env t

def start (env : Env) : Program ReturnCode :=
  noexcept do
    let s ← get
    if !s.router.enabled then
      modify fun s => { s with router := { s.router with enabled := true } }
      activateAllTopics env
      let s ← get
      s.router.currentServices.keys.forM fun t => do
        let s ← get
        if s.router.currentServices.find t = some true then enableService env t
      return .ok
    else return .preconditionNotMet

def stop (env : Env) : Program ReturnCode :=
  noexcept do
    let s ← get
    if s.router.enabled then
      modify fun s => { s with router := { s.router with enabled := false } }
      deactivateAllTopics env
      return .ok
    else return .preconditionNotMet

def reloadTopic (env : Env) (t : DdsTopic) : Program Unit := do
  let s ← get
  match s.router.currentTopics.find t with
  | some true => if !Router.topicAllowed env.router s.router t then deactivateTopic env t
  | _ => if Router.topicAllowed env.router s.router t then activateTopic env t

def reloadService (env : Env) (t : RPCTopic) : Program Unit := do
  let s ← get
  let allowed := Router.serviceAllowed env.router s.router t
  modify fun s => { s with router := { s.router with currentServices := s.router.currentServices.set t allowed } }
  if allowed then enableService env t else disableService env t

/-- `reload_configuration` may throw a `ConfigurationException`, after which
nothing has changed. -/
def reloadConfiguration (env : Env) (c : Router.ReloadConfiguration) : Program ReturnCode := do
  let s ← get
  if !c.isValid then return .error
  else if s.router.enabled then
    let list := AllowedTopicList.create c.allowlist c.blocklist
    let builtin := Router.newBuiltinTopics s.router c
    if list.equal env.utils.toFuzzyUtils s.router.allowedTopics && builtin.keys.isEmpty then return .noData
    else
      modify fun s => { s with router := { s.router with allowedTopics := list } }
      s.router.currentTopics.keys.forM (reloadTopic env)
      builtin.keys.forM (discoveredTopic env)
      let s ← get
      s.router.currentServices.keys.forM (reloadService env)
      return .ok
  else return .notEnabled

def discoveredEndpoint (env : Env) (e : Endpoint) : Program Unit :=
  noexcept do
    if e.isReader then
      if !RPCTopic.isServiceTopic e.topic then discoveredTopic env e.topic
      else if e.isServerEndpoint then
        discoveredService env (RPCTopic.ofTopic e.topic) e.discovererParticipantId e.guid.guidPrefix
      else return ()
    else return ()

def removedEndpoint (env : Env) (e : Endpoint) : Program Unit :=
  noexcept do
    if RPCTopic.isServiceTopic e.topic then
      if e.isServerEndpoint then
        removedService env (RPCTopic.ofTopic e.topic) e.discovererParticipantId e.guid.guidPrefix
      else return ()
    else return ()

/-! ### Writing -/

/-- `MultiWriter::get_writer_or_create_` with `create_writer_nts_`. -/
def getWriterOrCreate (env : Env) (id : ParticipantId) (m : MultiWriter) (qos : SpecificEndpointQoS) :
    Program CommonWriter :=
  match m.writersMap.find qos with
  | some w => return w
  | none => do
    let w ← initWriter env id m.topic fun e => { guid := ⟨m.guidPrefix, e⟩, topic := m.topic, repeater := m.repeater }
    return if m.enabled then w.enable else w

/-- `MultiWriter::write_`. -/
def writeNts (env : Env) (id : ParticipantId) (m : MultiWriter) (data : RouterData) (o : NewChange) :
    Program (WriteResult × MultiWriter) :=
  noexcept do
    let w ← getWriterOrCreate env id m data.writerQos
    let r := w.write data o
    return (r.1, { m with writersMap := m.writersMap.set data.writerQos r.2 })

/-- `BaseWriter::write`. The `write_` of a `CommonWriter` throws nothing. -/
def write (env : Env) (id : ParticipantId) (w : IWriter) (data : RouterData) (o : NewChange) :
    Program (WriteResult × IWriter) :=
  noexcept do
    match w with
    | .simple w => return ((w.write data o).1, .simple (w.write data o).2)
    | .multi m =>
      if m.enabled then
        let r ← writeNts env id m data o
        return (r.1, .multi r.2)
      else return ({ code := .notEnabled }, .multi m)

/-- A call of `write` in `transmit_`. -/
structure WriteCall where
  id : ParticipantId
  topic : DdsTopic
  data : RouterData
  change : NewChange := .created

/-- What `transmit_` of a track or of a service does with one writer. A write that
fails is logged and skipped. -/
def transmit (env : Env) (c : WriteCall) : Program Unit :=
  noexcept do
    let s ← get
    match s.writer c.id c.topic with
    | some (.rtps w) =>
      let r ← write env c.id w c.data c.change
      modify fun s => s.setWriter c.id c.topic (.rtps r.2)
    | some .dummy => return ()
    | none => return ()

/-- The calls of the router's methods, and the calls of `write` that the tasks of
tracks and services come to. -/
inductive Action where
  | start
  | stop
  | reload (c : Router.ReloadConfiguration)
  | discovered (e : Endpoint)
  | removed (e : Endpoint)
  | forward (t : DdsTopic) (source target : ParticipantId) (data : RouterData) (o : NewChange)
  | request (t : RPCTopic) (target : ParticipantId) (data : RouterData) (o : NewChange)
  | reply (t : RPCTopic) (target : ParticipantId) (data : RouterData) (o : NewChange)

/-- The call of `write` in a step: the track of a bridge has the writers of the other
participants, a service those of its topics once it is initialised. -/
def Action.call (env : Env) (s : State) : Action → Option WriteCall
  | .forward t source target data o =>
    if s.router.bridges.contains t && target ∈ env.targets source then some ⟨target, t, data, o⟩ else none
  | .request t target data o =>
    if (s.router.rpcBridges.find t).any RPCBridge.init then some ⟨target, t.requestTopic, data, o⟩ else none
  | .reply t target data o =>
    if (s.router.rpcBridges.find t).any RPCBridge.init then some ⟨target, t.replyTopic, data, o⟩ else none
  | _ => none

/-- The program of a step. -/
def perform (env : Env) : Action → Program Unit
  | .start => do
    let _ ← start env
  | .stop => do
    let _ ← stop env
  | .reload c => do
    let _ ← reloadConfiguration env c
  | .discovered e => discoveredEndpoint env e
  | .removed e => removedEndpoint env e
  | a => do
    let s ← get
    match a.call env s with
    | some c => transmit env c
    | none => return ()

/-- A step that ends the process leads nowhere. -/
def step (env : Env) (s : State) (a : Action) : Option State :=
  match perform env a s with
  | some (.ok _, s') => some s'
  | _ => none

/-- The router as its constructor leaves it. -/
def create (env : Env) (c : Router.ReloadConfiguration) : State := { router := Router.create env.router c }

/-- All exceptions have been logged. -/
def Reported (s : State) : Prop := s.errors = s.thrown

/-- All exceptions but the last have been logged. -/
def Raised (e : InitializationException) (s : State) : Prop := s.thrown = s.errors ++ [e]

/-- Where an enabled `MultiWriter` gets data with a QoS that is new to it, the writer
for the QoS can be created. -/
def Creates (env : Env) (s : State) (c : WriteCall) : Prop :=
  ∀ m, s.writer c.id c.topic = some (.rtps (.multi m)) → m.enabled = true →
    m.writersMap.find c.data.writerQos = none →
      (env.fastDds s.asked).created = true ∧ (env.fastDds s.asked).registered = true

/-- The condition on a step. -/
def WritersCreated (env : Env) (s : State) (a : Action) : Prop := ∀ c ∈ a.call env s, Creates env s c

section Creation

variable {env : Env}

theorem keeps_throw {α : Type} (e : InitializationException) :
    Keeps Reported Raised (throwInitialization e : Program α) := by
  intro s hs
  refine .inr ⟨e, { s with thrown := s.thrown ++ [e] }, rfl, ?_⟩
  simp only [Raised, Reported] at hs ⊢
  rw [hs]

/-- A change of the state that touches neither list. -/
theorem quiet_change {f : State → State} (h : ∀ s, (f s).thrown = s.thrown ∧ (f s).errors = s.errors) :
    Quiet Reported (modify f : Program Unit) := by
  refine quiet_modify fun s hs => ?_
  simp only [Reported] at hs ⊢
  rw [(h s).1, (h s).2, hs]

theorem keeps_change {f : State → State} (h : ∀ s, (f s).thrown = s.thrown ∧ (f s).errors = s.errors) :
    Keeps Reported Raised (modify f : Program Unit) := (quiet_change h).keeps

theorem lists_mapWriters (s : State) (ids : List ParticipantId) (topic : DdsTopic) (f : IWriter → IWriter) :
    (s.mapWriters ids topic f).thrown = s.thrown ∧ (s.mapWriters ids topic f).errors = s.errors := by
  induction ids generalizing s with
  | nil => exact ⟨rfl, rfl⟩
  | cons id ids ih =>
    simp only [State.mapWriters, List.foldl_cons] at ih ⊢
    rw [(ih _).1, (ih _).2]
    split <;> exact ⟨rfl, rfl⟩

theorem lists_switchService (t : RPCTopic) (f : IWriter → IWriter) (s : State) :
    (switchService env t f s).thrown = s.thrown ∧ (switchService env t f s).errors = s.errors := by
  have h₁ := lists_mapWriters s env.rtpsIds t.requestTopic f
  have h₂ := lists_mapWriters (s.mapWriters env.rtpsIds t.requestTopic f) env.rtpsIds t.replyTopic f
  exact ⟨h₂.1.trans h₁.1, h₂.2.trans h₁.2⟩

theorem quiet_ask : Quiet Reported (ask env) :=
  quiet_bind quiet_get fun _ => quiet_bind (quiet_change fun _ => ⟨rfl, rfl⟩) fun _ => quiet_pure _

/-- A check that throws, before the rest. -/
theorem keeps_check {α : Type} {c : Prop} [Decidable c] {e : InitializationException} {x : Program α}
    (hx : Keeps Reported Raised x) : Keeps Reported Raised (if c then throwInitialization e else x) := by
  split
  · exact keeps_throw _
  · exact hx

theorem keeps_initWriter (id : ParticipantId) (topic : DdsTopic) (w : EntityId → CommonWriter) :
    Keeps Reported Raised (initWriter env id topic w) :=
  keeps_bind quiet_ask.keeps fun _ => keeps_check (keeps_check (quiet_pure _).keeps)

theorem keeps_initReader (id : ParticipantId) (topic : DdsTopic) :
    Keeps Reported Raised (initReader env id topic) :=
  keeps_bind quiet_ask.keeps fun _ => keeps_check (keeps_check (quiet_pure _).keeps)

theorem keeps_createRtpsWriter (p : CommonParticipant) (topic : DdsTopic) :
    Keeps Reported Raised (createRtpsWriter env p topic) := by
  unfold createRtpsWriter
  split
  · exact (quiet_pure _).keeps
  · exact keeps_bind (keeps_initWriter _ _ _) fun _ => (quiet_pure _).keeps

theorem keeps_registerWriter {id : ParticipantId} {topic : DdsTopic} {x : Program Writer}
    (hx : Keeps Reported Raised x) : Keeps Reported Raised (registerWriter id topic x) :=
  keeps_bind quiet_get.keeps fun _ => keeps_check (keeps_bind hx fun _ => keeps_change fun _ => ⟨rfl, rfl⟩)

theorem keeps_registerReader {id : ParticipantId} {topic : DdsTopic} {x : Program Unit}
    (hx : Keeps Reported Raised x) : Keeps Reported Raised (registerReader id topic x) :=
  keeps_bind quiet_get.keeps fun _ => keeps_check (keeps_bind hx fun _ => keeps_change fun _ => ⟨rfl, rfl⟩)

theorem keeps_createWriter (id : ParticipantId) (topic : DdsTopic) :
    Keeps Reported Raised (createWriter env id topic) := by
  unfold createWriter
  split
  · exact (quiet_pure _).keeps
  · exact keeps_registerWriter (quiet_pure _).keeps
  · exact keeps_registerWriter (keeps_bind (keeps_createRtpsWriter _ _) fun _ => (quiet_pure _).keeps)

theorem keeps_createReader (id : ParticipantId) (topic : DdsTopic) :
    Keeps Reported Raised (createReader env id topic) := by
  unfold createReader
  split
  · exact (quiet_pure _).keeps
  · exact keeps_registerReader (quiet_pure _).keeps
  · exact keeps_registerReader (keeps_initReader _ _)

theorem quiet_enableTracks (topic : DdsTopic) : Quiet Reported (enableTracks env topic) :=
  quiet_noexcept (quiet_change fun s => lists_mapWriters s _ _ _)

theorem quiet_disableTracks (topic : DdsTopic) : Quiet Reported (disableTracks env topic) :=
  quiet_noexcept (quiet_change fun s => lists_mapWriters s _ _ _)

theorem keeps_newBridge (topic : DdsTopic) : Keeps Reported Raised (newBridge env topic) := by
  refine keeps_bind (keeps_forM fun id => ?_) fun _ => keeps_bind (quiet_enableTracks topic).keeps fun _ =>
    (quiet_pure _).keeps
  exact keeps_bind (keeps_createWriter id topic) fun _ => keeps_createReader id topic

/-- The handlers log what was raised. -/
theorem logError_raised {e : InitializationException} {s : State} (h : Raised e s) :
    ∃ s', logError e s = some (.ok (), s') ∧ Reported s' := by
  refine ⟨{ s with errors := s.errors ++ [e] }, rfl, ?_⟩
  simp only [Raised, Reported] at h ⊢
  exact h.symm

theorem quiet_createNewBridge (topic : DdsTopic) : Quiet Reported (createNewBridge env topic) := by
  refine quiet_noexcept (quiet_tryCatch (keeps_bind (keeps_newBridge topic) fun b =>
    keeps_change fun _ => ⟨rfl, rfl⟩) fun e s hr => ?_)
  obtain ⟨s', hs, hs'⟩ := logError_raised hr
  exact ⟨(), s', hs, hs'⟩

theorem quiet_tryInit (t : RPCTopic) : Quiet Reported (tryInit env t) := by
  have hservice : ∀ f : RPCBridge → RPCBridge,
      Keeps Reported Raised (modify fun s => s.updateService t f : Program Unit) :=
    fun f => keeps_change fun _ => ⟨rfl, rfl⟩
  have hclient : ∀ id, Keeps Reported Raised (createProxyClientNts env t id) := fun id =>
    keeps_bind (keeps_createWriter _ _) fun _ => keeps_bind (keeps_createReader _ _) fun _ => hservice _
  have hserver : ∀ id, Keeps Reported Raised (createProxyServerNts env t id) := fun id =>
    keeps_bind (keeps_createWriter _ _) fun _ => keeps_createReader _ _
  have hinit : Keeps Reported Raised (initNts env t) := by
    refine keeps_bind (keeps_forM fun id => ?_) fun _ => hservice _
    exact keeps_bind (hclient id) fun _ => keeps_bind (hserver id) fun _ => hservice _
  refine quiet_tryCatch (keeps_bind hinit fun _ => (quiet_pure _).keeps) fun e s hr => ?_
  obtain ⟨s', hs, hs'⟩ := logError_raised hr
  exact ⟨false, s', by simp [hs], hs'⟩

end Creation

section Methods

variable {env : Env}

theorem quiet_activateTopic (topic : DdsTopic) : Quiet Reported (activateTopic env topic) := by
  refine quiet_noexcept (quiet_bind (quiet_change fun _ => ⟨rfl, rfl⟩) fun _ => quiet_bind quiet_get fun s => ?_)
  split
  · exact quiet_createNewBridge topic
  · exact quiet_bind (quiet_enableTracks topic) fun _ => quiet_change fun _ => ⟨rfl, rfl⟩

theorem quiet_deactivateTopic (topic : DdsTopic) : Quiet Reported (deactivateTopic env topic) := by
  refine quiet_noexcept (quiet_bind (quiet_change fun _ => ⟨rfl, rfl⟩) fun _ => quiet_bind quiet_get fun s => ?_)
  split
  · exact quiet_pure _
  · exact quiet_bind (quiet_disableTracks topic) fun _ => quiet_change fun _ => ⟨rfl, rfl⟩

theorem quiet_enableService (t : RPCTopic) : Quiet Reported (enableService env t) := by
  refine quiet_noexcept (quiet_bind quiet_get fun s => ?_)
  split
  · exact quiet_pure _
  · split
    · refine quiet_bind ?_ fun initialised => ?_
      · unfold initialise
        split
        · exact quiet_tryInit t
        · exact quiet_pure _
      · split
        · exact quiet_change fun s => lists_switchService t _ s
        · exact quiet_pure _
    · exact quiet_pure _

theorem quiet_disableService (t : RPCTopic) : Quiet Reported (disableService env t) := by
  refine quiet_noexcept (quiet_bind quiet_get fun s => ?_)
  split
  · exact quiet_pure _
  · split
    · exact quiet_change fun s => lists_switchService t _ s
    · exact quiet_pure _

/-- A method that is called on a condition. -/
theorem quiet_if {x : Program Unit} (hx : Quiet Reported x) (b : Bool) :
    Quiet Reported (if b then x else pure ()) := by
  cases b with
  | true => exact hx
  | false => exact quiet_pure _

theorem quiet_activateAllTopics : Quiet Reported (activateAllTopics env) := by
  refine quiet_noexcept (quiet_bind quiet_get fun _ => quiet_forM fun t => quiet_bind quiet_get fun s => ?_)
  exact quiet_if (quiet_activateTopic t) _

theorem quiet_deactivateAllTopics : Quiet Reported (deactivateAllTopics env) :=
  quiet_noexcept (quiet_bind quiet_get fun _ => quiet_forM quiet_deactivateTopic)

theorem quiet_discoveredTopic (t : DdsTopic) : Quiet Reported (discoveredTopic env t) := by
  refine quiet_noexcept (quiet_bind quiet_get fun s => ?_)
  split
  · exact quiet_pure _
  · exact quiet_bind (quiet_change fun _ => ⟨rfl, rfl⟩) fun _ => quiet_if (quiet_activateTopic t) _

theorem quiet_discoveredService (t : RPCTopic) (id : ParticipantId) (g : GuidPrefix) :
    Quiet Reported (discoveredService env t id g) := by
  refine quiet_noexcept (quiet_bind (quiet_change fun _ => ⟨rfl, rfl⟩) fun _ =>
    quiet_bind (quiet_change fun _ => ⟨rfl, rfl⟩) fun _ => quiet_bind quiet_get fun s => ?_)
  exact quiet_if (quiet_enableService t) _

theorem quiet_removedService (t : RPCTopic) (id : ParticipantId) (g : GuidPrefix) :
    Quiet Reported (removedService env t id g) := by
  refine quiet_noexcept (quiet_bind (quiet_change fun _ => ⟨rfl, rfl⟩) fun _ => quiet_bind quiet_get fun s => ?_)
  split
  · exact quiet_pure _
  · split
    · exact quiet_disableService t
    · exact quiet_pure _

theorem quiet_start : Quiet Reported (start env) := by
  refine quiet_noexcept (quiet_bind quiet_get fun s => ?_)
  split
  · refine quiet_bind (quiet_change fun _ => ⟨rfl, rfl⟩) fun _ => quiet_bind quiet_activateAllTopics fun _ =>
      quiet_bind quiet_get fun s => quiet_bind (quiet_forM fun t => quiet_bind quiet_get fun s => ?_) fun _ =>
        quiet_pure _
    split
    · exact quiet_enableService t
    · exact quiet_pure _
  · exact quiet_pure _

theorem quiet_stop : Quiet Reported (stop env) := by
  refine quiet_noexcept (quiet_bind quiet_get fun s => ?_)
  split
  · exact quiet_bind (quiet_change fun _ => ⟨rfl, rfl⟩) fun _ => quiet_bind quiet_deactivateAllTopics fun _ =>
      quiet_pure _
  · exact quiet_pure _

theorem quiet_reloadTopic (t : DdsTopic) : Quiet Reported (reloadTopic env t) := by
  refine quiet_bind quiet_get fun s => ?_
  split
  · exact quiet_if (quiet_deactivateTopic t) _
  · exact quiet_if (quiet_activateTopic t) _

theorem quiet_reloadService (t : RPCTopic) : Quiet Reported (reloadService env t) := by
  refine quiet_bind quiet_get fun s => quiet_bind (quiet_change fun _ => ⟨rfl, rfl⟩) fun _ => ?_
  split
  · exact quiet_enableService t
  · exact quiet_disableService t

theorem quiet_reloadConfiguration (c : Router.ReloadConfiguration) : Quiet Reported (reloadConfiguration env c) := by
  refine quiet_bind quiet_get fun s => ?_
  split
  · exact quiet_pure _
  · split
    · simp only
      split
      · exact quiet_pure _
      · exact quiet_bind (quiet_change fun _ => ⟨rfl, rfl⟩) fun _ => quiet_bind (quiet_forM quiet_reloadTopic) fun _ =>
          quiet_bind (quiet_forM quiet_discoveredTopic) fun _ => quiet_bind quiet_get fun s =>
            quiet_bind (quiet_forM quiet_reloadService) fun _ => quiet_pure _
    · exact quiet_pure _

theorem quiet_discoveredEndpoint (e : Endpoint) : Quiet Reported (discoveredEndpoint env e) := by
  refine quiet_noexcept ?_
  split
  · split
    · exact quiet_discoveredTopic _
    · split
      · exact quiet_discoveredService _ _ _
      · exact quiet_pure _
  · exact quiet_pure _

theorem quiet_removedEndpoint (e : Endpoint) : Quiet Reported (removedEndpoint env e) := by
  refine quiet_noexcept ?_
  split
  · split
    · exact quiet_removedService _ _ _
    · exact quiet_pure _
  · exact quiet_pure _

end Methods

section Writing

variable {env : Env}

/-- What the answers of Fast DDS are for a call of `write`. -/
def Env.outcome (env : Env) (s : State) (o : NewChange) : WriteOutcome :=
  { change := o
    created := (env.fastDds s.asked).created && (env.fastDds s.asked).registered
    entityId := (env.fastDds s.asked).entityId }

theorem initWriter_ok {s : State} (h : (env.fastDds s.asked).created = true ∧ (env.fastDds s.asked).registered = true)
    (id : ParticipantId) (topic : DdsTopic) (w : EntityId → CommonWriter) :
    initWriter env id topic w s = some (.ok (w (env.fastDds s.asked).entityId), { s with asked := s.asked + 1 }) := by
  simp [initWriter, ask, h.1, h.2]

theorem initWriter_error {s : State}
    (h : ¬ ((env.fastDds s.asked).created = true ∧ (env.fastDds s.asked).registered = true))
    (id : ParticipantId) (topic : DdsTopic) (w : EntityId → CommonWriter) :
    ∃ e s', initWriter env id topic w s = some (.error e, s') ∧ s'.participants = s.participants := by
  cases hc : (env.fastDds s.asked).created with
  | false => simp [initWriter, ask, throwInitialization, hc]
  | true =>
    have hr : (env.fastDds s.asked).registered = false := by simpa [hc] using h
    simp [initWriter, ask, throwInitialization, hc, hr]

/-- With exceptions `write` does what it does without: it ends the process where the
writer for the QoS cannot be created. -/
theorem write_eq (env : Env) (id : ParticipantId) (w : IWriter) (data : RouterData) (o : NewChange) (s : State) :
    ∃ k, write env id w data o s =
      (w.write data (env.outcome s o)).map fun r => (.ok r, { s with asked := k }) := by
  cases w with
  | simple w => exact ⟨s.asked, rfl⟩
  | multi m =>
    cases he : m.enabled with
    | false =>
      refine ⟨s.asked, ?_⟩
      simp [write, he, IWriter.write, MultiWriter.write]
    | true =>
      simp only [IWriter.write, MultiWriter.write, he, if_true, MultiWriter.getWriterOrCreate]
      cases hf : m.writersMap.find data.writerQos with
      | some cw =>
        refine ⟨s.asked, ?_⟩
        simp [write, he, hf, writeNts, getWriterOrCreate, Env.outcome]
      | none =>
        refine ⟨s.asked + 1, ?_⟩
        by_cases hok : (env.fastDds s.asked).created = true ∧ (env.fastDds s.asked).registered = true
        · simp [write, he, hf, writeNts, getWriterOrCreate, initWriter_ok hok, Env.outcome, hok.1, hok.2,
            MultiWriter.createWriterNts, CommonWriter.enable]
        · have hnot : (env.outcome s o).created = false := by simpa [Env.outcome] using hok
          obtain ⟨e, s', hinit, -⟩ := initWriter_error hok id m.topic
            fun e => { guid := ⟨m.guidPrefix, e⟩, topic := m.topic, repeater := m.repeater }
          simp [write, he, hf, writeNts, getWriterOrCreate, hinit, hnot]

/-- A call of `write` returns exactly where the writers can be created. -/
theorem write_isSome_iff (w : IWriter) (data : RouterData) (o : WriteOutcome) :
    (w.write data o).isSome = true ↔
      ∀ m, w = .multi m → m.enabled = true → m.writersMap.find data.writerQos = none → o.created = true := by
  cases w with
  | simple w => simp [IWriter.write]
  | multi m =>
    simp only [IWriter.write, Option.isSome_map, MultiWriter.write, IWriter.multi.injEq, forall_eq']
    cases he : m.enabled with
    | false => simp
    | true =>
      simp only [if_true, Option.isSome_map, MultiWriter.getWriterOrCreate, forall_const]
      cases hf : m.writersMap.find data.writerQos with
      | some cw => simp
      | none => cases hc : o.created <;> simp

theorem transmit_iff (c : WriteCall) {s : State} (hs : Reported s) :
    ((∃ a s', transmit env c s = some (.ok a, s') ∧ Reported s') ↔ Creates env s c) ∧
      (transmit env c s = none ∨ ∃ a s', transmit env c s = some (.ok a, s') ∧ Reported s') := by
  have hsame : ∀ {s' : State}, s'.thrown = s.thrown → s'.errors = s.errors → Reported s' := by
    intro s' ht he
    simp only [Reported] at hs ⊢
    rw [ht, he, hs]
  cases hw : s.writer c.id c.topic with
  | none =>
    have ht : transmit env c s = some (.ok (), s) := by simp [transmit, hw]
    exact ⟨⟨fun _ m hm => by simp [hw] at hm, fun _ => ⟨(), s, ht, hs⟩⟩, .inr ⟨(), s, ht, hs⟩⟩
  | some w =>
    cases w with
    | dummy =>
      have ht : transmit env c s = some (.ok (), s) := by simp [transmit, hw]
      exact ⟨⟨fun _ m hm => by simp [hw] at hm, fun _ => ⟨(), s, ht, hs⟩⟩, .inr ⟨(), s, ht, hs⟩⟩
    | rtps w =>
      obtain ⟨k, hk⟩ := write_eq env c.id w c.data c.change s
      have hiff := write_isSome_iff w c.data (env.outcome s c.change)
      have hcreates : Creates env s c ↔ (w.write c.data (env.outcome s c.change)).isSome = true := by
        rw [hiff]
        simp [Creates, hw, Env.outcome]
      rw [hcreates]
      cases hr : w.write c.data (env.outcome s c.change) with
      | none =>
        have ht : transmit env c s = none := by simp [transmit, hw, hk, hr]
        exact ⟨by simp [ht], .inl ht⟩
      | some r =>
        obtain ⟨s', ht, hlist⟩ : ∃ s', transmit env c s = some (.ok (), s') ∧
            s'.thrown = s.thrown ∧ s'.errors = s.errors := by
          refine ⟨State.setWriter { s with asked := k } c.id c.topic (.rtps r.2), ?_, rfl, rfl⟩
          simp [transmit, hw, hk, hr]
        have hrep : Reported s' := hsame hlist.1 hlist.2
        exact ⟨⟨fun _ => rfl, fun _ => ⟨(), s', ht, hrep⟩⟩, .inr ⟨(), s', ht, hrep⟩⟩

end Writing

section Calls

variable {env : Env}

/-- What `create_writer_` and `create_reader_` of a participant give back with the next
answer of Fast DDS. -/
def Env.answers (env : Env) (s : State) : BridgeCreation.Answers Writer Unit where
  writer id topic :=
    match env.participant id with
    | .rtps p =>
      if topic.topicQos.hasPartitions || topic.topicQos.hasOwnership || (env.outcome s .created).created then
        some (.rtps (p.createWriter topic (env.outcome s .created).entityId))
      else none
    | _ => some .dummy
  reader id _ := if !env.isRtps id || (env.outcome s .created).created then some () else none

/-- A writer is created and registered, or the call throws and registers nothing, as
the creation of bridges has it. -/
theorem createWriter_perform {id : ParticipantId} (hid : env.participant id ≠ .blank) (topic : DdsTopic) (s : State) :
    match BridgeCreation.perform (env.answers s) s.participants (.writer id topic) with
    | some ps => ∃ k, createWriter env id topic s = some (.ok (), { s with participants := ps, asked := k })
    | none => ∃ e s', createWriter env id topic s = some (.error e, s') ∧ s'.participants = s.participants := by
  cases hreg : (s.participants id).writers.contains topic with
  | true =>
    have hfail : BridgeCreation.perform (env.answers s) s.participants (.writer id topic) = none :=
      BridgeCreation.perform_eq_none.mpr (.inl hreg)
    rw [hfail]
    cases hp : env.participant id with
    | blank => exact absurd hp hid
    | dummy b => simp [createWriter, hp, registerWriter, hreg, throwInitialization]
    | rtps p => simp [createWriter, hp, registerWriter, hreg, throwInitialization]
  | false =>
    simp only [BridgeCreation.perform, BaseParticipant.createWriter, hreg, Bool.false_eq_true, if_false, Env.answers]
    cases hp : env.participant id with
    | blank => exact absurd hp hid
    | dummy b =>
      refine ⟨s.asked, ?_⟩
      simp [createWriter, hp, registerWriter, hreg, State.setWriter]
    | rtps p =>
      by_cases hq : topic.topicQos.hasPartitions || topic.topicQos.hasOwnership
      · simp only [hq, Bool.true_or, if_true, Option.map_some]
        refine ⟨s.asked, ?_⟩
        simp [createWriter, hp, registerWriter, hreg, State.setWriter, createRtpsWriter, hq,
          CommonParticipant.createWriter]
      · by_cases hok : (env.fastDds s.asked).created = true ∧ (env.fastDds s.asked).registered = true
        · have hc : (env.outcome s .created).created = true := by simpa [Env.outcome] using hok
          simp only [hc, Bool.or_true, if_true, Option.map_some]
          refine ⟨s.asked + 1, ?_⟩
          simp [createWriter, hp, registerWriter, hreg, State.setWriter, createRtpsWriter, hq, initWriter_ok hok,
            CommonParticipant.createWriter, Env.outcome]
        · have hc : (env.outcome s .created).created = false := by simpa [Env.outcome] using hok
          obtain ⟨e, s', hinit, hs'⟩ := initWriter_error hok p.id topic
            fun e => { guid := ⟨p.guidPrefix, e⟩, topic := topic, repeater := p.isRepeater }
          simp only [hc, hq, Bool.or_false, Bool.false_eq_true, if_false, Option.map_none]
          refine ⟨e, s', ?_, hs'⟩
          simp [createWriter, hp, registerWriter, hreg, createRtpsWriter, hq, hinit]

theorem createReader_perform {id : ParticipantId} (hid : env.participant id ≠ .blank) (topic : DdsTopic) (s : State) :
    match BridgeCreation.perform (env.answers s) s.participants (.reader id topic) with
    | some ps => ∃ k, createReader env id topic s = some (.ok (), { s with participants := ps, asked := k })
    | none => ∃ e s', createReader env id topic s = some (.error e, s') ∧ s'.participants = s.participants := by
  cases hreg : (s.participants id).readers.contains topic with
  | true =>
    have hfail : BridgeCreation.perform (env.answers s) s.participants (.reader id topic) = none :=
      BridgeCreation.perform_eq_none.mpr (.inl hreg)
    rw [hfail]
    cases hp : env.participant id with
    | blank => exact absurd hp hid
    | dummy b => simp [createReader, hp, registerReader, hreg, throwInitialization]
    | rtps p => simp [createReader, hp, registerReader, hreg, throwInitialization]
  | false =>
    simp only [BridgeCreation.perform, BaseParticipant.createReader, hreg, Bool.false_eq_true, if_false, Env.answers]
    cases hp : env.participant id with
    | blank => exact absurd hp hid
    | dummy b =>
      simp only [Env.isRtps, hp, Bool.not_false, Bool.true_or, if_true, Option.map_some]
      refine ⟨s.asked, ?_⟩
      simp [createReader, hp, registerReader, hreg, State.setReader]
    | rtps p =>
      simp only [Env.isRtps, hp, Bool.not_true, Bool.false_or, Env.outcome]
      cases hc : (env.fastDds s.asked).created with
      | false => simp [createReader, hp, registerReader, hreg, initReader, ask, throwInitialization, hc]
      | true =>
        cases hr : (env.fastDds s.asked).registered with
        | false => simp [createReader, hp, registerReader, hreg, initReader, ask, throwInitialization, hc, hr]
        | true =>
          refine ⟨s.asked + 1, ?_⟩
          simp [createReader, hp, registerReader, hreg, initReader, ask, hc, hr, State.setReader]

end Calls

section Steps

variable {env : Env} {s s' : State} {a : Action}

/-- The methods of the router never end the process. -/
theorem perform_method (ha : ∀ s, a.call env s = none) : Quiet Reported (perform env a) := by
  cases a with
  | start => exact quiet_bind quiet_start fun _ => quiet_pure _
  | stop => exact quiet_bind quiet_stop fun _ => quiet_pure _
  | reload c => exact quiet_bind (quiet_reloadConfiguration c) fun _ => quiet_pure _
  | discovered e => exact quiet_discoveredEndpoint e
  | removed e => exact quiet_removedEndpoint e
  | forward | request | reply =>
    refine quiet_bind quiet_get fun s => ?_
    rw [ha s]
    exact quiet_pure _

theorem perform_call (hs : Reported s) :
    ((∃ x s', perform env a s = some (.ok x, s')) ↔ WritersCreated env s a) ∧
      ∀ x s', perform env a s = some (.ok x, s') → Reported s' := by
  have hquiet : Quiet Reported (perform env a) → WritersCreated env s a →
      ((∃ x s', perform env a s = some (.ok x, s')) ↔ WritersCreated env s a) ∧
        ∀ x s', perform env a s = some (.ok x, s') → Reported s' := by
    intro hq hc
    obtain ⟨x, s', hx, hs'⟩ := hq s hs
    refine ⟨⟨fun _ => hc, fun _ => ⟨x, s', hx⟩⟩, fun y t hy => ?_⟩
    rw [hx] at hy
    cases hy
    exact hs'
  -- a step of a task is the call that it makes
  have hcall : perform env a s = (match a.call env s with
      | some c => transmit env c s
      | none => some (.ok (), s)) →
      ((∃ x s', perform env a s = some (.ok x, s')) ↔ WritersCreated env s a) ∧
        ∀ x s', perform env a s = some (.ok x, s') → Reported s' := by
    intro hp
    rw [hp, WritersCreated]
    cases hc : a.call env s with
    | none =>
      refine ⟨⟨by simp, fun _ => ⟨(), s, rfl⟩⟩, fun x s' hx => ?_⟩
      cases hx
      exact hs
    | some c =>
      simp only [Option.mem_def, Option.some.injEq, forall_eq']
      obtain ⟨hiff, hnone | ⟨x, s', hx, hs'⟩⟩ := @transmit_iff env c s hs
      · rw [hnone] at hiff ⊢
        exact ⟨by simpa using hiff, by simp⟩
      · rw [hx] at hiff ⊢
        refine ⟨⟨fun _ => hiff.mp ⟨x, s', rfl, hs'⟩, fun _ => ⟨x, s', rfl⟩⟩, fun y t hy => ?_⟩
        cases hy
        exact hs'
  cases a with
  | start | stop | reload | discovered | removed =>
    exact hquiet (perform_method fun _ => rfl) fun c hc => by cases hc
  | forward | request | reply =>
    refine hcall ?_
    simp only [perform, bind_apply, get_apply, Option.bind_some]
    split <;> simp [*]

theorem step_iff (hs : Reported s) : (∃ s', step env s a = some s') ↔ WritersCreated env s a := by
  rw [← (perform_call hs).1]
  unfold step
  constructor
  · rintro ⟨s', h⟩
    split at h
    · rename_i x s₁ hx
      exact ⟨x, s₁, hx⟩
    · cases h
  · rintro ⟨x, s', hx⟩
    exact ⟨s', by rw [hx]⟩

theorem step_reported (hs : Reported s) (h : step env s a = some s') : Reported s' := by
  unfold step at h
  split at h
  · rename_i x s₁ hx
    cases h
    exact (perform_call hs).2 x _ hx
  · cases h

end Steps

def partitioned : DdsTopic := { topicName := "chatter", typeName := "String", topicQos := { usePartitions := true } }

/-- Both readers are created, and nothing after them. -/
def twoReaders : Env where
  utils := { isSet := fun l => l ≠ 0, fuzzyStr := Fuzzy.value, matchPattern := fun p s => p = s }
  ids := [⟨"a"⟩, ⟨"b"⟩]
  participant id := .rtps { id := id, guidPrefix := if id = ⟨"a"⟩ then 1 else 2, isRepeater := false }
  fastDds n := { created := n < 2 }

def sampleOf (qos : SpecificEndpointQoS) : RouterData :=
  { length := 4, maxSize := 4, sourceGuid := ⟨5, 2⟩, sourceTimestamp := 0, participantReceiver := ⟨"a"⟩
    instanceHandle := 0, kind := .alive, sampleIdentity := SampleIdentity.unknown
    relatedSampleIdentity := SampleIdentity.unknown, originSequenceNumber := 1, writerQos := qos }

def firstSample : List Action :=
  [.start,
    .discovered { kind := .reader, guid := ⟨5, 1⟩, topic := partitioned, discovererParticipantId := ⟨"b"⟩ },
    .forward partitioned ⟨"a"⟩ ⟨"b"⟩ (sampleOf { partitions := ["p"] }) .created]

end DDSRouter.Noexcept
