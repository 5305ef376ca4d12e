import DDSRouter.Lib.Runs
import DDSRouter.Lib.Threads
import DDSRouter.RPCBridge
import DDSRouter.Reader
import Mathlib.Logic.Function.Basic

/-!
# Transmission of requests and replies

An `RPCBridge` has a proxy server and a proxy client in every RTPS participant:
a request reader with a reply writer, and a reply reader with a request writer.
Every reader has a slot in the thread pool. A task of the slot takes the samples
of its reader in `transmit_` until there are none: a request goes out through
the request writers of the participants that have servers, a reply through the
reply writer of the participant that the request came from.

The step function has one step for each critical section. The registry mutex
makes one of the write of a request and the addition to the registry. The
mutex of an RTPS reader makes one of the arrival of a change and its report, and
of the test with which a task ends. Tasks of all readers, callers of the public
methods and the outside take their steps in any order. Left open are the answers
of Fast DDS: whether a change is found, whether a write succeeds, and the number
that a written request gets.
-/
namespace DDSRouter.RPC

open Threads

/-- Which of the two topics of the service a reader is in. -/
inductive Side where
  | request | reply
  deriving DecidableEq, Repr

/-- A reader of the bridge: its side and its participant. -/
abbrev ReaderKey := Side × ParticipantId

/-- The RTPS participants and the guids that their readers get. -/
structure Participants where
  ids : List ParticipantId
  isRepeater : ParticipantId → Bool
  guid : ReaderKey → Guid

/-- A reader with its emission flag in `tasks_map_`. -/
structure Slot where
  reader : Reader
  emitted : Bool := false

/-- The identity that the reply to a request is to be related to. -/
def requestIdentity (data : DataReceived) : SampleIdentity :=
  { data.sampleIdentity with sequenceNumber := data.originSequenceNumber }

/-- Points of a task in `transmit_`. At `fanOut` the request has still to be
offered to the participants of the list; at `send` one has been chosen. -/
inductive TransmitPc where
  | lock | test | take
  | fanOut (n : Nat) (data : DataReceived) (identity : SampleIdentity) (rest : List ParticipantId)
  | send (n : Nat) (data : DataReceived) (identity : SampleIdentity) (id : ParticipantId)
      (rest : List ParticipantId)
  | lookup (data : DataReceived)
  | reply (data : DataReceived) (entry : ParticipantId × SampleIdentity)
  | erase (idx : SequenceNumber)
  | release
  deriving DecidableEq, Repr

structure Task where
  key : ReaderKey
  pc : TransmitPc
  deriving DecidableEq, Repr

/-- The task holds `on_transmission_mutex_`. -/
def Task.holding (t : Task) : Bool := t.pc ≠ .lock

/-- Points of the thread that holds `mutex_`. The readers that have still to be
switched are in the list; `enReport` is the report of a reliable reader that has
just been enabled. -/
inductive ControlPc where
  | idle
  | enReaders (rest : List ReaderKey)
  | enReport (key : ReaderKey) (rest : List ReaderKey)
  | disWait
  | disReaders (rest : List ReaderKey)
  deriving DecidableEq, Repr

/-- What the tasks have done. A request is named by the number of its arrival.
`sent` is the sequence number that the writer gave it, if the write succeeded;
`served` says whether the participant had a server at that moment. -/
inductive Event where
  | requestTaken (receiver : ParticipantId) (n : Nat) (data : DataReceived)
  | requestWritten (receiver : ParticipantId) (n : Nat) (through : ParticipantId) (data : DataReceived)
      (sent : Option SequenceNumber) (served : Bool)
  | replyWritten (taker : ParticipantId) (through : ParticipantId) (data : DataReceived) (ok : Bool)
  deriving DecidableEq, Repr

/-- `disableCalls` counts the calls of `disable` inside `removed_service` that
have not got `mutex_` yet. -/
structure State where
  bridge : RPCBridge
  slots : ReaderKey → Slot
  control : ControlPc := .idle
  disableCalls : Nat := 0
  queued : List ReaderKey := []
  running : List Task := []
  arrivals : Nat := 0
  log : List Event := []

/-- The answers of Fast DDS in one step of a task. -/
structure Outcome where
  found : Bool := true
  sent : Option SequenceNumber := none
  ok : Bool := true
  deriving DecidableEq, Repr

inductive Action where
  | arrive (key : ReaderKey) (c : CacheChange)
  | discovered (id : ParticipantId) (g : GuidPrefix)
  | removed (id : ParticipantId) (g : GuidPrefix)
  | enable (created : ParticipantId → Creation)
  | disable | disableCall | control
  | start (i : Nat)
  | transmit (i : Nat) (o : Outcome)

namespace State

def reader (s : State) (key : ReaderKey) : Reader := (s.slots key).reader

def setReader (s : State) (key : ReaderKey) (r : Reader) : State :=
  { s with slots := Function.update s.slots key { s.slots key with reader := r } }

def setEmitted (s : State) (key : ReaderKey) (b : Bool) : State :=
  { s with slots := Function.update s.slots key { s.slots key with emitted := b } }

/-- `data_available_`. -/
def dataAvailable (s : State) (key : ReaderKey) : State :=
  if s.bridge.enabled && !(s.slots key).emitted then
    { s.setEmitted key true with queued := s.queued ++ [key] }
  else s

/-- `disable` up to its wait for the transmissions. -/
def disable (s : State) : State :=
  if s.bridge.enabled then { s with bridge := s.bridge.disable, control := .disWait } else s

end State

/-- The write of a request through one participant with the addition to its
registry, when the writer reports success. -/
def sendRequest (s : State) (n : Nat) (data : DataReceived) (identity : SampleIdentity)
    (id : ParticipantId) (sent : Option SequenceNumber) : State × DataReceived :=
  let data' := { data with
    relatedSampleIdentity := { data.relatedSampleIdentity with writerGuid := (s.reader (.reply, id)).guid } }
  ({ s with
      bridge :=
        match sent with
        | some k => s.bridge.mapRegistry id fun r => r.add k (data.participantReceiver, identity)
        | none => s.bridge
      log := s.log ++
        [.requestWritten data.participantReceiver n id data' sent (s.bridge.servers id ≠ ∅)] }, data')

/-- One step of a task. A sample of a topic that is neither a request nor a
reply topic ends the process. -/
def transmitStep (db : Participants) (o : Outcome) (s : State) (key : ReaderKey) :
    TransmitPc → Option (State × Option TransmitPc)
  | .lock => some (s, some .test)
  | .test =>
    if !s.bridge.enabled || (s.reader key).history.isEmpty then some (s.setEmitted key false, none)
    else some (s, some .take)
  | .take =>
    match (s.reader key).take o.found with
    | (.taken n data, r) =>
      if RPCTopic.isRequestTopic r.topic then
        some ({ s.setReader key r with log := s.log ++ [.requestTaken r.participantId n data] },
          some (if requestIdentity data = SampleIdentity.unknown then .release
            else .fanOut n data (requestIdentity data) s.bridge.serviceRegistries.keys))
      else if RPCTopic.isReplyTopic r.topic then
        some (s.setReader key r,
          some (if data.sampleIdentity.writerGuid ≠ r.guid then .release else .lookup data))
      else none
    | (_, r) => some (s.setReader key r, some .test)
  | .fanOut _ _ _ [] => some (s, some .release)
  | .fanOut n data identity (id :: rest) =>
    if (data.participantReceiver = id && !db.isRepeater id) || !s.bridge.registryEnabled id then
      some (s, some (.fanOut n data identity rest))
    else some (s, some (.send n data identity id rest))
  | .send n data identity id rest =>
    let r := sendRequest s n data identity id o.sent
    some (r.1, some (.fanOut n r.2 identity rest))
  | .lookup data =>
    (s.bridge.serviceRegistries.find (s.reader key).participantId).map fun r =>
      let entry := r.get data.sampleIdentity.sequenceNumber
      (s, some (if entry.1.isValid then .reply data entry else .release))
  | .reply data entry =>
    some ({ s with
        log := s.log ++ [.replyWritten (s.reader key).participantId entry.1
          { data with relatedSampleIdentity := entry.2 } o.ok] },
      some (if o.ok then .erase data.sampleIdentity.sequenceNumber else .release))
  | .erase idx =>
    some ({ s with bridge := s.bridge.mapRegistry (s.reader key).participantId fun r => r.erase idx },
      some .release)
  | .release => some (s, some .test)

/-- The keys of the readers, in the order in which `enable` walks through them. -/
def Participants.replyThenRequest (db : Participants) : List ReaderKey :=
  db.ids.map (Prod.mk .reply) ++ db.ids.map (Prod.mk .request)

/-- The order of `disable`. -/
def Participants.requestThenReply (db : Participants) : List ReaderKey :=
  db.ids.map (Prod.mk .request) ++ db.ids.map (Prod.mk .reply)

/-- One operation of `enable` or `disable` on the readers. -/
def controlStep (db : Participants) (s : State) : ControlPc → Option State
  | .idle => none
  | .enReaders [] => some { s with control := .idle }
  | .enReaders (key :: rest) =>
    some { s.setReader key (s.reader key).enable.1 with
      control := if (s.reader key).enable.2 then .enReport key rest else .enReaders rest }
  | .enReport key rest => some { s.dataAvailable key with control := .enReaders rest }
  | .disWait =>
    if s.running.any Task.holding then none else some { s with control := .disReaders db.requestThenReply }
  | .disReaders [] => some { s with control := .idle }
  | .disReaders (key :: rest) =>
    some { s.setReader key (s.reader key).disable with control := .disReaders rest }

/-- A reader receives a change; its listener reports the change. -/
def arrive (s : State) (key : ReaderKey) (c : CacheChange) : State :=
  let r := ((s.reader key).received s.arrivals c).onNewCacheChangeAdded s.arrivals c
  let s' := { s.setReader key r.1 with arrivals := s.arrivals + 1 }
  if r.2 then s'.dataAvailable key else s'

/-- The endpoints of the bridge exist from its initialisation on; servers are
discovered by RTPS participants. A caller that finds `mutex_` taken waits. -/
def step (db : Participants) (s : State) : Action → Option State
  | .arrive key c => if s.bridge.init && key.2 ∈ db.ids then some (arrive s key c) else none
  | .discovered id g =>
    if id ∈ db.ids then some { s with bridge := s.bridge.discoveredService id g } else none
  | .removed id g =>
    if id ∈ db.ids then
      let b := s.bridge.eraseServer id g
      some { s with
        bridge := b
        disableCalls := if b.servers id = ∅ ∧ !b.serversAvailable then s.disableCalls + 1 else s.disableCalls }
    else none
  | .enable created =>
    if s.control = .idle then
      let b := s.bridge.enable created db.ids
      some { s with
        bridge := b
        control := if !s.bridge.enabled && b.enabled then .enReaders db.replyThenRequest else .idle }
    else none
  | .disable => if s.control = .idle then some s.disable else none
  | .disableCall =>
    if s.control = .idle ∧ 0 < s.disableCalls then
      some { s.disable with disableCalls := s.disableCalls - 1 }
    else none
  | .control => controlStep db s s.control
  | .start i =>
    (s.queued[i]?).map fun key =>
      { s with queued := s.queued.eraseIdx i, running := s.running ++ [⟨key, .lock⟩] }
  | .transmit i o =>
    (s.running[i]?).bind fun t =>
      (transmitStep db o s t.key t.pc).map fun r =>
        { r.1 with running := advance s.running i (r.2.map (Task.mk t.key)) }

/-- A reader as the participant creates it. -/
def createReader (db : Participants) (topic : RPCTopic) (key : ReaderKey) : Reader :=
  { participantId := key.2
    guid := db.guid key
    topic := match key.1 with
      | .request => topic.requestTopic
      | .reply => topic.replyTopic }

/-- A bridge as its constructor leaves it. The endpoints come with the first
successful `enable`; until then nothing looks at the slots. -/
def create (db : Participants) (topic : RPCTopic) : State :=
  { bridge := { topic := topic }, slots := fun key => { reader := createReader db topic key } }

/-- Everything that a task can do in one step from each of its points. -/
inductive TransmitMove (db : Participants) (s : State) (key : ReaderKey) :
    TransmitPc → State → Option TransmitPc → Prop where
  | lock : TransmitMove db s key .lock s (some .test)
  | leave (h : s.bridge.enabled = false ∨ (s.reader key).history = []) :
      TransmitMove db s key .test (s.setEmitted key false) none
  | stay (he : s.bridge.enabled = true) (hh : (s.reader key).history ≠ []) :
      TransmitMove db s key .test s (some .take)
  | notTaken (history : List (Arrival CacheChange)) :
      TransmitMove db s key .take (s.setReader key { s.reader key with history := history }) (some .test)
  | request (n : Nat) (c : CacheChange) (history : List (Arrival CacheChange)) (pc : TransmitPc)
      (ht : RPCTopic.isRequestTopic (s.reader key).topic = true)
      (hpc : pc = .release ∨ pc = .fanOut n ((s.reader key).fillReceivedData c)
        (requestIdentity ((s.reader key).fillReceivedData c)) s.bridge.serviceRegistries.keys) :
      TransmitMove db s key .take
        { s.setReader key { s.reader key with history := history } with
          log := s.log ++ [.requestTaken (s.reader key).participantId n ((s.reader key).fillReceivedData c)] }
        (some pc)
  | response (c : CacheChange) (history : List (Arrival CacheChange)) (pc : TransmitPc)
      (ht : RPCTopic.isReplyTopic (s.reader key).topic = true)
      (hpc : pc = .release ∨ pc = .lookup ((s.reader key).fillReceivedData c)) :
      TransmitMove db s key .take (s.setReader key { s.reader key with history := history }) (some pc)
  | sentAll (n : Nat) (data : DataReceived) (identity : SampleIdentity) :
      TransmitMove db s key (.fanOut n data identity []) s (some .release)
  | skip (n : Nat) (data : DataReceived) (identity : SampleIdentity) (id : ParticipantId)
      (rest : List ParticipantId) :
      TransmitMove db s key (.fanOut n data identity (id :: rest)) s (some (.fanOut n data identity rest))
  | choose (n : Nat) (data : DataReceived) (identity : SampleIdentity) (id : ParticipantId)
      (rest : List ParticipantId) (he : s.bridge.registryEnabled id = true) :
      TransmitMove db s key (.fanOut n data identity (id :: rest)) s (some (.send n data identity id rest))
  | send (n : Nat) (data : DataReceived) (identity : SampleIdentity) (id : ParticipantId)
      (rest : List ParticipantId) (sent : Option SequenceNumber) :
      TransmitMove db s key (.send n data identity id rest) (sendRequest s n data identity id sent).1
        (some (.fanOut n (sendRequest s n data identity id sent).2 identity rest))
  | known (data : DataReceived) (r : ServiceRegistry) (entry : ParticipantId × SampleIdentity)
      (hr : s.bridge.serviceRegistries.find (s.reader key).participantId = some r)
      (hf : r.registry.find data.sampleIdentity.sequenceNumber = some entry)
      (hv : entry.1.isValid = true) :
      TransmitMove db s key (.lookup data) s (some (.reply data entry))
  | unknown (data : DataReceived) : TransmitMove db s key (.lookup data) s (some .release)
  | reply (data : DataReceived) (entry : ParticipantId × SampleIdentity) (ok : Bool) (pc : TransmitPc)
      (hpc : pc = if ok then .erase data.sampleIdentity.sequenceNumber else .release) :
      TransmitMove db s key (.reply data entry)
        { s with
          log := s.log ++ [.replyWritten (s.reader key).participantId entry.1
            { data with relatedSampleIdentity := entry.2 } ok] }
        (some pc)
  | erase (idx : SequenceNumber) :
      TransmitMove db s key (.erase idx)
        { s with bridge := s.bridge.mapRegistry (s.reader key).participantId fun r => r.erase idx }
        (some .release)
  | release : TransmitMove db s key .release s (some .test)

section Inversion

variable {db : Participants} {o : Outcome} {s s' : State} {key : ReaderKey}

theorem transmitStep_take {x : Option TransmitPc} (h : transmitStep db o s key .take = some (s', x)) :
    TransmitMove db s key .take s' x := by
  simp only [transmitStep] at h
  have hself : s.setReader key (s.reader key) = s.setReader key { s.reader key with history := (s.reader key).history } :=
    rfl
  cases hr : (s.reader key).take o.found with
  | mk res r =>
    have ht := Reader.take_takes (s.reader key) o.found
    rw [hr] at ht h
    cases ht with
    | notEnabled he =>
      cases h
      rw [hself]
      exact .notTaken _
    | noData he hh =>
      cases h
      rw [hself]
      exact .notTaken _
    | notFound he =>
      cases h
      rw [hself]
      exact .notTaken _
    | discarded n c rest he hh =>
      cases h
      exact .notTaken rest
    | taken n c rest he hh hd =>
      simp only at h
      split at h
      · rename_i hreq
        cases h
        refine .request n c rest _ hreq ?_
        split
        · exact .inl rfl
        · exact .inr rfl
      · split at h
        · rename_i hrep
          cases h
          refine .response c rest _ hrep ?_
          split
          · exact .inl rfl
          · exact .inr rfl
        · cases h

theorem transmitStep_move {pc : TransmitPc} {x : Option TransmitPc}
    (h : transmitStep db o s key pc = some (s', x)) : TransmitMove db s key pc s' x := by
  cases pc with
  | lock =>
    cases h
    exact .lock
  | test =>
    simp only [transmitStep] at h
    split at h
    · rename_i hend
      cases h
      exact .leave (by simpa using hend)
    · rename_i hgo
      cases h
      simp only [Bool.or_eq_true, Bool.not_eq_true', List.isEmpty_iff, not_or, Bool.not_eq_false] at hgo
      exact .stay hgo.1 hgo.2
  | take => exact transmitStep_take h
  | fanOut n data identity rest =>
    cases rest with
    | nil =>
      cases h
      exact .sentAll n data identity
    | cons id rest =>
      simp only [transmitStep] at h
      split at h
      · cases h
        exact .skip n data identity id rest
      · rename_i hgo
        cases h
        simp only [Bool.or_eq_true, Bool.not_eq_true', not_or, Bool.not_eq_false] at hgo
        exact .choose n data identity id rest hgo.2
  | send n data identity id rest =>
    cases h
    exact .send n data identity id rest o.sent
  | lookup data =>
    simp only [transmitStep, Option.map_eq_some_iff] at h
    obtain ⟨r, hr, h⟩ := h
    split at h
    · rename_i hv
      cases h
      exact .known data r _ hr (ServiceRegistry.find_of_get hv) hv
    · cases h
      exact .unknown data
  | reply data entry =>
    cases h
    exact .reply data entry o.ok _ rfl
  | erase idx =>
    cases h
    exact .erase idx
  | release =>
    cases h
    exact .release

theorem step_transmit_inv {i : Nat} (h : step db s (.transmit i o) = some s') :
    ∃ t s₁ x, s.running[i]? = some t ∧ TransmitMove db s t.key t.pc s₁ x ∧
      s' = { s₁ with running := advance s.running i (x.map (Task.mk t.key)) } := by
  simp only [step, Option.bind_eq_some_iff, Option.map_eq_some_iff] at h
  obtain ⟨t, ht, ⟨s₁, x⟩, hm, rfl⟩ := h
  exact ⟨t, s₁, x, ht, transmitStep_move hm, rfl⟩

/-- Where nobody holds `mutex_`, the removal of a server with the call of
`disable` that it may make does to the bridge what `removedService` says. -/
theorem run_removedService {id : ParticipantId} {g : GuidPrefix} (hid : id ∈ db.ids)
    (hidle : s.control = .idle) :
    ∃ rest s', Runs.run (step db) s (.removed id g :: rest) = some s' ∧
      s'.bridge = s.bridge.removedService id g ∧ s'.disableCalls = s.disableCalls := by
  by_cases hlast : (s.bridge.eraseServer id g).servers id = ∅ ∧ !(s.bridge.eraseServer id g).serversAvailable
  · have h₁ : step db s (.removed id g) =
        some { s with bridge := s.bridge.eraseServer id g, disableCalls := s.disableCalls + 1 } := by
      simp [step, hid, hlast]
    have h₂ : step db { s with bridge := s.bridge.eraseServer id g, disableCalls := s.disableCalls + 1 }
        .disableCall =
        some { State.disable { s with bridge := s.bridge.eraseServer id g, disableCalls := s.disableCalls + 1 } with
          disableCalls := s.disableCalls } := by
      simp [step, hidle]
    refine ⟨[.disableCall], _, Runs.run_cons_some.mpr ⟨_, h₁, Runs.run_cons_some.mpr ⟨_, h₂, rfl⟩⟩, ?_, rfl⟩
    have hrem : s.bridge.removedService id g = (s.bridge.eraseServer id g).disable := by
      simp [RPCBridge.removedService, hlast]
    rw [hrem]
    cases he : s.bridge.enabled with
    | true => simp [State.disable, RPCBridge.eraseServer, he]
    | false => simp [State.disable, RPCBridge.eraseServer, RPCBridge.disable, he]
  · have h₁ : step db s (.removed id g) = some { s with bridge := s.bridge.eraseServer id g } := by
      simp only [step, if_pos hid, if_neg hlast]
    refine ⟨[], _, Runs.run_cons_some.mpr ⟨_, h₁, rfl⟩, ?_, rfl⟩
    simp only [RPCBridge.removedService, if_neg hlast]

end Inversion

/-- What the actions of others than the tasks do to the bridge. -/
inductive BridgeMove (db : Participants) (b : RPCBridge) : Action → RPCBridge → Prop where
  | keep (a : Action) : BridgeMove db b a b
  | discovered (id : ParticipantId) (g : GuidPrefix) (hid : id ∈ db.ids) :
      BridgeMove db b (.discovered id g) (b.discoveredService id g)
  | removed (id : ParticipantId) (g : GuidPrefix) : BridgeMove db b (.removed id g) (b.eraseServer id g)
  | enable (created : ParticipantId → Creation) :
      BridgeMove db b (.enable created) (b.enable created db.ids)
  | disable (a : Action) : BridgeMove db b a b.disable

/-- A step in which no task of `transmit_` moves: nothing is taken or written,
and a task is only queued while the bridge is enabled. -/
structure Outer (db : Participants) (s : State) (a : Action) (s' : State) : Prop where
  bridge : BridgeMove db s.bridge a s'.bridge
  log : s'.log = s.log
  reader : ∀ key, (s'.reader key).participantId = (s.reader key).participantId
  running : ∀ t ∈ s'.running, t ∈ s.running ∨ t.pc = .lock ∧ t.key ∈ s.queued
  queued : ∀ key ∈ s'.queued, key ∈ s.queued ∨ s.bridge.enabled = true

section Outer

variable {db : Participants} {s s' : State}

theorem reader_setReader (s : State) (key k : ReaderKey) (r : Reader) :
    (s.setReader key r).reader k = if k = key then r else s.reader k := by
  simp only [State.setReader, State.reader, Function.update_apply]
  split <;> rfl

@[simp] theorem reader_setEmitted (s : State) (key k : ReaderKey) (b : Bool) :
    (s.setEmitted key b).reader k = s.reader k := by
  simp only [State.setEmitted, State.reader, Function.update_apply]
  split
  · rename_i hk
    rw [hk]
  · rfl

theorem participantId_setReader {key : ReaderKey} {r : Reader}
    (h : r.participantId = (s.reader key).participantId) (k : ReaderKey) :
    ((s.setReader key r).reader k).participantId = (s.reader k).participantId := by
  rw [reader_setReader]
  split
  · rename_i hk
    rw [h, hk]
  · rfl

/-- A step that moves no task and leaves the bridge alone. -/
theorem outer_of_same {a : Action} (hb : s'.bridge = s.bridge) (hl : s'.log = s.log)
    (hr : ∀ key, (s'.reader key).participantId = (s.reader key).participantId)
    (hrun : s'.running = s.running) (hq : s'.queued = s.queued) : Outer db s a s' := by
  constructor
  · rw [hb]
    exact .keep a
  · exact hl
  · exact hr
  · exact fun t ht => .inl (hrun ▸ ht)
  · exact fun key hk => .inl (hq ▸ hk)

theorem outer_dataAvailable {a : Action} (h : Outer db s a s') (he : s'.bridge.enabled = s.bridge.enabled)
    (key : ReaderKey) : Outer db s a (s'.dataAvailable key) := by
  unfold State.dataAvailable
  split
  · rename_i hgo
    constructor
    · exact h.bridge
    · exact h.log
    · intro k
      rw [← h.reader k]
      exact congrArg Reader.participantId (reader_setEmitted s' key k true)
    · exact h.running
    · intro k hk
      rcases List.mem_append.mp hk with hk | -
      · exact h.queued k hk
      · simp only [Bool.and_eq_true] at hgo
        exact .inr (he ▸ hgo.1)
  · exact h

theorem outer_arrive {a : Action} (key : ReaderKey) (c : CacheChange) : Outer db s a (arrive s key c) := by
  have hid : ((((s.reader key).received s.arrivals c).onNewCacheChangeAdded s.arrivals c).1).participantId =
      (s.reader key).participantId := by
    simp only [Reader.onNewCacheChangeAdded]
    split
    · split
      · rfl
      · split <;> rfl
    · rfl
  have hset : Outer db s a
      { s.setReader key (((s.reader key).received s.arrivals c).onNewCacheChangeAdded s.arrivals c).1 with
        arrivals := s.arrivals + 1 } :=
    outer_of_same rfl rfl (participantId_setReader hid) rfl rfl
  unfold arrive
  simp only
  split
  · exact outer_dataAvailable hset rfl key
  · exact hset

theorem participantId_enable (r : Reader) : r.enable.1.participantId = r.participantId := by
  unfold Reader.enable
  split <;> rfl

/-- What the holder of `mutex_` can do in one step, with the guards. -/
inductive ControlMove (db : Participants) (s : State) : State → Prop where
  | enReader (key : ReaderKey) (rest : List ReaderKey) (hc : s.control = .enReaders (key :: rest)) :
      ControlMove db s { s.setReader key (s.reader key).enable.1 with
        control := if (s.reader key).enable.2 then .enReport key rest else .enReaders rest }
  | enReport (key : ReaderKey) (rest : List ReaderKey) (hc : s.control = .enReport key rest) :
      ControlMove db s { s.dataAvailable key with control := .enReaders rest }
  | enDone (hc : s.control = .enReaders []) : ControlMove db s { s with control := .idle }
  | disWait (hc : s.control = .disWait) (hfree : s.running.any Task.holding = false) :
      ControlMove db s { s with control := .disReaders db.requestThenReply }
  | disReader (key : ReaderKey) (rest : List ReaderKey) (hc : s.control = .disReaders (key :: rest)) :
      ControlMove db s { s.setReader key (s.reader key).disable with control := .disReaders rest }
  | disDone (hc : s.control = .disReaders []) : ControlMove db s { s with control := .idle }

theorem controlStep_move (h : controlStep db s s.control = some s') : ControlMove db s s' := by
  cases hc : s.control with
  | idle => simp [controlStep, hc] at h
  | enReaders rest =>
    rw [hc] at h
    cases rest with
    | nil =>
      cases h
      exact .enDone hc
    | cons key rest =>
      cases h
      exact .enReader key rest hc
  | enReport key rest =>
    rw [hc] at h
    cases h
    exact .enReport key rest hc
  | disWait =>
    simp only [controlStep, hc] at h
    split at h
    · cases h
    · rename_i hfree
      cases h
      exact .disWait hc (by simpa using hfree)
  | disReaders rest =>
    rw [hc] at h
    cases rest with
    | nil =>
      cases h
      exact .disDone hc
    | cons key rest =>
      cases h
      exact .disReader key rest hc

theorem outer_control (h : controlStep db s s.control = some s') : Outer db s .control s' := by
  cases controlStep_move h with
  | enReader key rest =>
    exact outer_of_same rfl rfl (participantId_setReader (participantId_enable _)) rfl rfl
  | enReport key rest =>
    have hself : Outer db s .control s := outer_of_same rfl rfl (fun _ => rfl) rfl rfl
    have hav := outer_dataAvailable hself rfl key
    exact ⟨hav.bridge, hav.log, hav.reader, hav.running, hav.queued⟩
  | disReader key rest =>
    refine outer_of_same rfl rfl ?_ rfl rfl
    exact participantId_setReader (r := (s.reader key).disable) rfl
  | enDone | disWait | disDone => exact outer_of_same rfl rfl (fun _ => rfl) rfl rfl

theorem outer_disable (a : Action) (n : Nat) : Outer db s a { s.disable with disableCalls := n } := by
  unfold State.disable
  split
  · exact ⟨.disable a, rfl, fun _ => rfl, fun t ht => .inl ht, fun key hk => .inl hk⟩
  · exact outer_of_same rfl rfl (fun _ => rfl) rfl rfl

theorem step_outer {a : Action} (h : step db s a = some s') (ha : ∀ i o, a ≠ .transmit i o) :
    Outer db s a s' := by
  cases a with
  | arrive key c =>
    simp only [step] at h
    split at h
    · cases h
      exact outer_arrive key c
    · cases h
  | discovered id g =>
    simp only [step] at h
    split at h
    · rename_i hid
      cases h
      exact ⟨.discovered id g hid, rfl, fun _ => rfl, fun t ht => .inl ht, fun key hk => .inl hk⟩
    · cases h
  | removed id g =>
    simp only [step] at h
    split at h
    · cases h
      exact ⟨.removed id g, rfl, fun _ => rfl, fun t ht => .inl ht, fun key hk => .inl hk⟩
    · cases h
  | enable created =>
    simp only [step] at h
    split at h
    · cases h
      exact ⟨.enable created, rfl, fun _ => rfl, fun t ht => .inl ht, fun key hk => .inl hk⟩
    · cases h
  | disable =>
    simp only [step] at h
    split at h
    · cases h
      exact outer_disable .disable s.disable.disableCalls
    · cases h
  | disableCall =>
    simp only [step] at h
    split at h
    · cases h
      exact outer_disable .disableCall _
    · cases h
  | control => exact outer_control h
  | start i =>
    simp only [step, Option.map_eq_some_iff] at h
    obtain ⟨key, hk, rfl⟩ := h
    refine ⟨.keep _, rfl, fun _ => rfl, ?_, fun k hk => .inl (List.mem_of_mem_eraseIdx hk)⟩
    intro t ht
    rcases List.mem_append.mp ht with ht | ht
    · exact .inl ht
    · rw [List.mem_singleton] at ht
      subst ht
      exact .inr ⟨rfl, List.mem_of_getElem? hk⟩
  | transmit i o => exact absurd rfl (ha i o)

end Outer

end DDSRouter.RPC
