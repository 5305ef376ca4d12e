import DDSRouter.RPCTransmission
import DDSRouter.TrackPayloads

/-!
# Payloads on their way through a service

The tasks of an `RPCBridge` take samples and write them as those of a track do:
`take` acquires a block only for data that has length. What differs is the end of
a sample. A track releases the payload if it has length, `RPCBridge::transmit_`
always does, and `release_payload` counts down in front of the data pointer
without looking whether there is one.

The system is a bridge with the writers of both topics and the pool. Besides the
program point of each task it has the data that the task has taken.
-/
namespace DDSRouter

open Runs Threads

namespace IWriter

/-- The changes that hold a block, in the histories of all RTPS writers. -/
def held (w : IWriter) (n : Nat) : Nat :=
  match w with
  | .simple w => w.held n
  | .multi m => m.writersMap.total fun w => w.held n

/-- What `write` does to the pool: what the RTPS writer does that the data goes to. -/
def writePool (w : IWriter) (data : RouterData) (o : WriteOutcome) (pool : Blocks) : Blocks :=
  if w.enabled then (w.writerFor data.writerQos o).elim pool fun cw => cw.writePool data o.change pool else pool

variable {p : CommonParticipant} {w w' : IWriter} {qos : SpecificEndpointQoS}

theorem held_put (w : IWriter) (qos : SpecificEndpointQoS) (cw : CommonWriter) (n : Nat) :
    (w.put qos cw).held n + (w.inner qos).elim 0 (fun w => w.held n) = w.held n + cw.held n := by
  cases w with
  | simple w => exact Nat.add_comm _ _
  | multi m => exact m.writersMap.total_set (fun w => w.held n) qos cw

/-- A writer that is created holds nothing. -/
theorem held_writerFor {o : WriteOutcome} {cw : CommonWriter} (h : w.writerFor qos o = some cw) (n : Nat) :
    (w.inner qos).elim 0 (fun w => w.held n) = cw.held n := by
  cases w with
  | simple w =>
    cases h
    rfl
  | multi m =>
    simp only [writerFor, MultiWriter.getWriterOrCreate] at h
    simp only [inner]
    split at h
    · rename_i hfind
      cases h
      rw [hfind, Option.elim_some]
    · rename_i hfind
      split at h
      · cases h
        rw [hfind]
        rfl
      · cases h

theorem held_createWriter (p : CommonParticipant) (topic : DdsTopic) (entityId : EntityId) (n : Nat) :
    (p.createWriter topic entityId).held n = 0 := by
  unfold CommonParticipant.createWriter
  split <;> rfl

theorem held_enable (w : IWriter) (n : Nat) : w.enable.held n = w.held n := by
  cases w with
  | simple w => rfl
  | multi m =>
    simp only [enable, MultiWriter.enable]
    split
    · rfl
    · exact m.writersMap.total_mapValues fun _ => rfl

theorem held_disable (w : IWriter) (n : Nat) : w.disable.held n = w.held n := by
  cases w with
  | simple w => rfl
  | multi m =>
    simp only [disable, MultiWriter.disable]
    split
    · exact m.writersMap.total_mapValues fun _ => rfl
    · rfl

/-- The change that is removed from the history of an RTPS writer. -/
def changeAt (w : IWriter) (qos : SpecificEndpointQoS) (i : Nat) : Option WriterChange :=
  (w.inner qos).bind fun cw => cw.history[i]?

theorem held_removeChange (w : IWriter) (qos : SpecificEndpointQoS) (i n : Nat) :
    (w.removeChange qos i).held n + ((w.changeAt qos i).toList.filterMap WriterChange.block).count n = w.held n := by
  cases w with
  | simple w => exact w.held_removeChange i n
  | multi m =>
    simp only [removeChange, changeAt, inner]
    cases hfind : m.writersMap.find qos with
    | none => rfl
    | some cw =>
      have hput := m.writersMap.total_set (fun w => w.held n) qos (cw.removeChange i)
      have hone := cw.held_removeChange i n
      rw [hfind, Option.elim_some] at hput
      rw [Option.bind_some]
      change (m.writersMap.set qos (cw.removeChange i)).total (fun w => w.held n) + _ =
        m.writersMap.total fun w => w.held n
      omega

/-- Whatever `write` does, the references of the writer are those of its histories. -/
theorem writePool_spec {data : RouterData} {o : WriteOutcome} {r : WriteResult} {pool : Blocks} (h : Fit p w)
    (hw : w.write data o = some (r, w')) (hs : pool.Sound)
    (hlive : data.length > 0 → ∀ n ∈ data.block, 0 < pool.refs n) (hle : ∀ k, w.held k ≤ pool.refs k) :
    (w.writePool data o pool).Sound ∧
      (∀ k, (w.writePool data o pool).refs k + w.held k = pool.refs k + w'.held k) ∧
      ∀ k, pool.refs k = 0 → (w.writePool data o pool).refs k = 0 := by
  rcases write_some hw with ⟨he, -, rfl⟩ | ⟨he, cw, hcw, -, rfl⟩
  · have hpool : w'.writePool data o pool = pool := by simp [writePool, he]
    rw [hpool]
    exact ⟨hs, fun k => rfl, fun k hk => hk⟩
  · have hpool : w.writePool data o pool = cw.writePool data o.change pool := by simp [writePool, he, hcw]
    obtain ⟨-, hfit, -⟩ := writerFor_cases h hcw
    have hput : ∀ (v : CommonWriter) (k : Nat), (w.put data.writerQos v).held k + cw.held k = w.held k + v.held k := by
      intro v k
      rw [← held_writerFor hcw k]
      exact held_put w data.writerQos v k
    have hinner : ∀ k, cw.held k ≤ pool.refs k := by
      intro k
      have hempty := hput { cw with history := [] } k
      have hzero : CommonWriter.held { cw with history := [] } k = 0 := rfl
      have := hle k
      omega
    obtain ⟨hsound, -, hrefs, hfresh⟩ := CommonWriter.writePool_spec (o := o.change) hfit hs hlive hinner
    rw [hpool]
    refine ⟨hsound, fun k => ?_, hfresh⟩
    have := hrefs k
    have := hput (cw.write data o.change).2 k
    omega

end IWriter

/-- The listener removes changes or leaves the history as it is. -/
theorem Reader.onNewCacheChangeAdded_history (r : Reader) (n : Nat) (c : CacheChange) :
    ∃ p, (r.onNewCacheChangeAdded n c).1.history = r.history.filter p := by
  have hall : r.history = r.history.filter fun _ => true := (List.filter_true _).symm
  simp only [Reader.onNewCacheChangeAdded]
  split
  · split
    · exact ⟨_, hall⟩
    · split
      · exact ⟨_, rfl⟩
      · exact ⟨_, hall⟩
  · exact ⟨_, rfl⟩

namespace RPC

/-- All pairs of a topic and a participant, for the readers and for the writers. -/
def Participants.endpoints (db : Participants) : Finset ReaderKey := db.replyThenRequest.toFinset

theorem Participants.mem_endpoints {db : Participants} {key : ReaderKey} : key ∈ db.endpoints ↔ key.2 ∈ db.ids := by
  obtain ⟨side, id⟩ := key
  cases side with
  | request => simp [endpoints, replyThenRequest]
  | reply => simp [endpoints, replyThenRequest]

/-- The task has taken a sample and not finished with it. -/
def TransmitPc.hasData : TransmitPc → Bool
  | .lock | .test | .take => false
  | .fanOut .. | .send .. | .lookup .. | .reply .. | .erase .. | .release => true

section Frames

variable {db : Participants} {s s' : State} {key : ReaderKey} {pc : TransmitPc} {x : Option TransmitPc}

theorem reader_setReader_eq (s : State) (key : ReaderKey) (r : Reader) :
    (s.setReader key r).reader = Function.update s.reader key r := by
  funext k
  rw [reader_setReader, Function.update_apply]

/-- Only `take` touches a reader. -/
theorem transmitMove_reader (h : TransmitMove db s key pc s' x) (hpc : pc ≠ .take) :
    s'.reader = s.reader ∧ s'.arrivals = s.arrivals := by
  cases h with
  | leave => exact ⟨funext fun k => reader_setEmitted s key k false, rfl⟩
  | notTaken | request | response => exact absurd rfl hpc
  | _ => exact ⟨rfl, rfl⟩

/-- A task gets its data in `take` and keeps it up to `release`. -/
theorem transmitMove_hasData (h : TransmitMove db s key pc s' x) (htake : pc ≠ .take) (hrelease : pc ≠ .release) :
    (∀ pc' ∈ x, pc'.hasData = pc.hasData) ∧ (x = none → pc.hasData = false) := by
  cases h with
  | notTaken | request | response => exact absurd rfl htake
  | release => exact absurd rfl hrelease
  | reply data entry ok pc hpc =>
    refine ⟨fun pc' hpc' => ?_, by simp⟩
    cases hpc'
    rw [hpc]
    split <;> rfl
  | _ => simp [TransmitPc.hasData]

/-- Steps outside `transmit_` in which no change arrives and no task starts. -/
theorem step_quiet {a : Action} (h : step db s a = some s') (harrive : ∀ key c, a ≠ .arrive key c)
    (hstart : ∀ i, a ≠ .start i) (htransmit : ∀ i o, a ≠ .transmit i o) :
    s'.running = s.running ∧ s'.arrivals = s.arrivals ∧ ∀ key, (s'.reader key).history = (s.reader key).history := by
  have hset : ∀ (key : ReaderKey) (r : Reader), r.history = (s.reader key).history →
      ∀ k, ((s.setReader key r).reader k).history = (s.reader k).history := by
    intro key r hr k
    rw [reader_setReader]
    split
    · rename_i hk
      rw [hk, hr]
    · rfl
  have hdisable : s.disable.running = s.running ∧ s.disable.arrivals = s.arrivals ∧
      ∀ key, (s.disable.reader key).history = (s.reader key).history := by
    simp only [State.disable]
    split <;> exact ⟨rfl, rfl, fun _ => rfl⟩
  cases a with
  | arrive key c => exact absurd rfl (harrive key c)
  | start i => exact absurd rfl (hstart i)
  | transmit i o => exact absurd rfl (htransmit i o)
  | discovered | removed | enable =>
    simp only [step] at h
    split at h
    · cases h
      exact ⟨rfl, rfl, fun _ => rfl⟩
    · cases h
  | disable | disableCall =>
    simp only [step] at h
    split at h
    · cases h
      exact hdisable
    · cases h
  | control =>
    cases controlStep_move h with
    | enReader key rest =>
      refine ⟨rfl, rfl, hset key (s.reader key).enable.1 ?_⟩
      simp only [Reader.enable]
      split <;> rfl
    | enReport key rest =>
      simp only [State.dataAvailable]
      split
      · exact ⟨rfl, rfl, fun k => congrArg Reader.history (reader_setEmitted s key k true)⟩
      · exact ⟨rfl, rfl, fun _ => rfl⟩
    | disReader key rest => exact ⟨rfl, rfl, hset key (s.reader key).disable rfl⟩
    | enDone | disWait | disDone => exact ⟨rfl, rfl, fun _ => rfl⟩

/-- A change that arrives is in the history of its reader, unless the listener
removes it. -/
theorem arrive_reader (s : State) (key : ReaderKey) (c : CacheChange) :
    (arrive s key c).running = s.running ∧ (arrive s key c).arrivals = s.arrivals + 1 ∧
      ∃ r p, (arrive s key c).reader = Function.update s.reader key r ∧
        r.history = ((s.reader key).received s.arrivals c).history.filter p := by
  have hframe : (arrive s key c).running = s.running ∧ (arrive s key c).arrivals = s.arrivals + 1 ∧
      (arrive s key c).reader = Function.update s.reader key
        (((s.reader key).received s.arrivals c).onNewCacheChangeAdded s.arrivals c).1 := by
    simp only [arrive, State.dataAvailable]
    split
    · split
      · refine ⟨rfl, rfl, funext fun k => ?_⟩
        rw [← reader_setReader_eq]
        exact reader_setEmitted _ key k true
      · exact ⟨rfl, rfl, reader_setReader_eq s key _⟩
    · exact ⟨rfl, rfl, reader_setReader_eq s key _⟩
  obtain ⟨p, hp⟩ := Reader.onNewCacheChangeAdded_history ((s.reader key).received s.arrivals c) s.arrivals c
  exact ⟨hframe.1, hframe.2.1, _, p, hframe.2.2, hp⟩

end Frames

end RPC

namespace RPCPayloads

open RPC TrackPayloads

/-- `hands` has the data of each running task. `acquired` and `released` are the
samples for which a reference was taken and given up; `nullReleases` counts the
calls of `release_payload` without a block. -/
structure State where
  rpc : RPC.State
  hands : List (Option RouterData) := []
  writers : ReaderKey → IWriter
  pool : Blocks := {}
  taken : List Nat := []
  acquired : List Nat := []
  released : List Nat := []
  nullReleases : Nat := 0

/-- What is open in one step of a task: whether a change is found, the QoS of the
writer that it came from, and the answers to a call of `write`. -/
structure Answers where
  found : Bool := true
  writerQos : SpecificEndpointQoS := {}
  write : WriteOutcome := {}

inductive Action where
  | bridge (a : RPC.Action)
  | transmit (i : Nat) (o : Answers)
  | removeChange (key : ReaderKey) (qos : SpecificEndpointQoS) (i : Nat)

/-- Endpoints as the participants create them. -/
def create (db : Participants) (topic : RPCTopic) (participants : ParticipantId → CommonParticipant)
    (entityIds : ReaderKey → EntityId) : State :=
  { rpc := RPC.create db topic
    writers := fun key => (participants key.2).createWriter
      (match key.1 with
        | .request => topic.requestTopic
        | .reply => topic.replyTopic) (entityIds key) }

/-- The data that `fill_received_data_` fills: its payload has a block if the change
has length, else its data pointer is null. -/
def takenData (n : Nat) (data : DataReceived) (qos : SpecificEndpointQoS) : RouterData :=
  { toDataReceived := data, writerQos := qos, block := if data.length > 0 then some n else none }

namespace State

def acquire (s : State) (d : RouterData) : State :=
  match d.block with
  | some n => { s with pool := s.pool.share n, acquired := n :: s.acquired }
  | none => s

/-- `release_payload` at the end of `transmit_`. -/
def releasePayload (s : State) (d : RouterData) : State :=
  match d.block with
  | some n => { s with pool := s.pool.release n, released := n :: s.released }
  | none => { s with nullReleases := s.nullReleases + 1 }

/-- A call of `write`, with what `transmit_` sees of its result. A participant
without endpoints has no writer to call. -/
def offer (db : Participants) (s : State) (key : ReaderKey) (d : RouterData) (o : WriteOutcome) :
    Option (RPC.Outcome × State) :=
  if key.2 ∈ db.ids then
    ((s.writers key).write d o).map fun r =>
      ({ sent := if r.1.code = .ok then r.1.sentSequenceNumber else none, ok := r.1.code = .ok },
        { s with
          writers := Function.update s.writers key r.2
          pool := (s.writers key).writePool d o s.pool })
  else none

/-- The calls that a task makes in one step, with the data that it has afterwards. -/
def calls (db : Participants) (s : State) (t : Task) (hand : Option RouterData) (o : Answers) :
    Option (RPC.Outcome × Option RouterData × State) :=
  match t.pc, hand with
  | .take, _ =>
    match ((s.rpc.reader t.key).take o.found).1 with
    | .taken n data =>
      some ({ found := o.found }, some (takenData n data o.writerQos),
        { s.acquire (takenData n data o.writerQos) with taken := n :: s.taken })
    | _ => some ({ found := o.found }, none, s)
  | .send n data identity id _, some d =>
    (s.offer db (.request, id) { d with toDataReceived := (sendRequest s.rpc n data identity id none).2 } o.write).map
      fun r => (r.1, hand, r.2)
  | .reply data entry, some d =>
    (s.offer db (.reply, entry.1) { d with toDataReceived := { data with relatedSampleIdentity := entry.2 } }
      o.write).map fun r => (r.1, hand, r.2)
  | .release, some d => some ({}, none, s.releasePayload d)
  | _, _ => some ({}, hand, s)

/-- What the steps outside `transmit_` ask of the writers and the pool. `enable`
switches the writers on before the readers, `disable` off after them. -/
def outside (s : State) (r : RPC.State) : RPC.Action → State
  | .arrive key c =>
    let received := ((s.rpc.reader key).received s.rpc.arrivals c).history
    { s with
      pool := (if 0 < c.maxSize then s.pool.reserve s.rpc.arrivals else s.pool).releaseAll
        (gone received (r.reader key).history) }
  | .enable _ =>
    if !s.rpc.bridge.enabled && r.bridge.enabled then { s with writers := fun key => (s.writers key).enable } else s
  | .control =>
    if s.rpc.control = .disReaders [] then { s with writers := fun key => (s.writers key).disable } else s
  | .start _ => { s with hands := s.hands ++ [none] }
  | _ => s

end State

/-- A payload is not longer than its size. -/
def Sized : RPC.Action → Bool
  | .arrive _ c => c.length ≤ c.maxSize
  | _ => true

def step (db : Participants) (s : State) : Action → Option State
  | .bridge (.transmit _ _) => none
  | .bridge a =>
    if Sized a then (RPC.step db s.rpc a).map fun r => { s.outside r a with rpc := r } else none
  | .transmit i o =>
    (s.rpc.running[i]?).bind fun t =>
      (s.calls db t (s.hands[i]?).join o).bind fun c =>
        (transmitStep db c.1 s.rpc t.key t.pc).map fun r =>
          { c.2.2 with
            rpc := { r.1 with running := advance s.rpc.running i (r.2.map (Task.mk t.key)) }
            hands := advance s.hands i (r.2.map fun _ => c.2.1)
            pool := c.2.2.pool.releaseAll (gone (s.rpc.reader t.key).history (r.1.reader t.key).history) }
  | .removeChange key qos i =>
    if key.2 ∈ db.ids then
      some { s with
        writers := Function.update s.writers key ((s.writers key).removeChange qos i)
        pool := s.pool.releaseAll (((s.writers key).changeAt qos i).toList.filterMap WriterChange.block) }
    else none

/-- The bridge in the system is the bridge as it is without writers and pool. -/
theorem step_bridge {db : Participants} {s s' : State} {a : Action} (h : step db s a = some s') :
    s'.rpc = s.rpc ∨ ∃ b, RPC.step db s.rpc b = some s'.rpc := by
  cases a with
  | bridge a =>
    right
    cases a with
    | transmit i o => cases h
    | _ =>
      simp only [step] at h
      split at h
      · obtain ⟨r, hr, rfl⟩ := Option.map_eq_some_iff.mp h
        exact ⟨_, hr⟩
      · cases h
  | transmit i o =>
    right
    simp only [step, Option.bind_eq_some_iff, Option.map_eq_some_iff] at h
    obtain ⟨t, ht, c, -, r, hr, rfl⟩ := h
    refine ⟨.transmit i c.1, ?_⟩
    simp only [RPC.step, ht, Option.bind_some, hr, Option.map_some]
  | removeChange key qos i =>
    simp only [step] at h
    split at h
    · cases h
      exact .inl rfl
    · cases h

/-- The data of a task has the block. -/
def holds (n : Nat) (hand : Option RouterData) : Bool := hand.any fun d => d.block = some n

def State.inHand (s : State) (n : Nat) : Nat := s.hands.countP (holds n)

def State.inReaders (db : Participants) (s : State) (n : Nat) : Nat := ∑ key ∈ db.endpoints, (s.rpc.reader key).held n

def State.inWriters (db : Participants) (s : State) (n : Nat) : Nat := ∑ key ∈ db.endpoints, (s.writers key).held n

/-- What `transmit_` leaves behind: a reference that was acquired is released once,
when the task has finished with the sample, and then only writers hold the block. -/
structure Released (db : Participants) (s : State) : Prop where
  once : ∀ n, s.acquired.count n = s.released.count n + s.inHand n ∧ s.acquired.count n ≤ 1
  notNull : s.nullReleases = 0
  references : ∀ n, s.pool.refs n = s.inReaders db n + s.inWriters db n + s.inHand n
  remaining : ∀ n ∈ s.released, s.pool.refs n = s.inWriters db n
  misused : s.pool.misused = false

/-- The sample that a task finishes with has length. -/
def FinishesWithLength (s : State) : Action → Prop
  | .transmit i _ => ∀ t ∈ s.rpc.running[i]?, t.pc = .release → ∀ d ∈ (s.hands[i]?).join, 0 < d.length
  | _ => True

structure Inv (db : Participants) (participants : ParticipantId → CommonParticipant) (s : State) : Prop where
  hands : List.Forall₂ (fun t hand => hand.isSome = t.pc.hasData) s.rpc.running s.hands
  blocks : ∀ d, some d ∈ s.hands → (d.block.isSome = true ↔ 0 < d.length)
  outside : ∀ key, key ∉ db.endpoints → (s.rpc.reader key).history = []
  numbering : ∀ n, (∑ key ∈ db.endpoints, (s.rpc.reader key).numbers.count n) + s.taken.count n ≤
    if n < s.rpc.arrivals then 1 else 0
  sized : ∀ key, ∀ e ∈ (s.rpc.reader key).history, e.2.length ≤ e.2.maxSize
  fit : ∀ key, IWriter.Fit (participants key.2) (s.writers key)
  sound : s.pool.Sound
  refs : ∀ n, s.pool.refs n = s.inReaders db n + s.inWriters db n + s.inHand n
  fresh : ∀ n, s.rpc.arrivals ≤ n → s.pool.refs n = 0
  inHand : ∀ n, s.acquired.count n = s.released.count n + s.inHand n
  acquired : ∀ n, s.acquired.count n ≤ s.taken.count n
  notNull : s.nullReleases = 0

section Readers

variable {db : Participants} {participants : ParticipantId → CommonParticipant} {s : State} {key : ReaderKey}

/-- What is counted over all readers when one of them changes. A reader that no
participant has is empty. -/
theorem sum_readers (h : Inv db participants s) {r : Reader} (hr : key ∉ db.endpoints → r.history = [])
    {f : Reader → Nat} (hf : ∀ r : Reader, r.history = [] → f r = 0) :
    (∑ k ∈ db.endpoints, f (Function.update s.rpc.reader key r k)) + f (s.rpc.reader key) =
      (∑ k ∈ db.endpoints, f (s.rpc.reader k)) + f r := by
  by_cases hkey : key ∈ db.endpoints
  · exact RefCount.sum_update hkey s.rpc.reader r f
  · have hsame : ∑ k ∈ db.endpoints, f (Function.update s.rpc.reader key r k) =
        ∑ k ∈ db.endpoints, f (s.rpc.reader k) := by
      refine Finset.sum_congr rfl fun k hk => ?_
      rw [Function.update_of_ne (ne_of_mem_of_not_mem hk hkey)]
    rw [hsame, hf _ (h.outside key hkey), hf r (hr hkey)]

theorem held_of_empty {r : Reader} (h : r.history = []) (n : Nat) : r.held n = 0 := by
  rw [Reader.held, h]
  rfl

theorem count_of_empty {r : Reader} (h : r.history = []) (n : Nat) : r.numbers.count n = 0 := by
  rw [Reader.numbers, h]
  rfl

/-- Changes of different readers have different numbers. -/
theorem count_le (h : Inv db participants s) (key : ReaderKey) (n : Nat) :
    (s.rpc.reader key).numbers.count n + s.taken.count n ≤ if n < s.rpc.arrivals then 1 else 0 := by
  have hsum := h.numbering n
  by_cases hkey : key ∈ db.endpoints
  · have := RefCount.le_sum hkey s.rpc.reader fun r => r.numbers.count n
    omega
  · rw [count_of_empty (h.outside key hkey)]
    omega

end Readers

/-- The pool and the writers after the calls of a step, in which a task may get data
or give it up. -/
structure Called (db : Participants) (participants : ParticipantId → CommonParticipant) (s : State)
    (hand hand' : Option RouterData) (e : State) : Prop where
  fit : ∀ key, IWriter.Fit (participants key.2) (e.writers key)
  sound : e.pool.Sound
  refs : ∀ n, e.pool.refs n + (holds n hand).toNat =
    s.inReaders db n + e.inWriters db n + s.inHand n + (holds n hand').toNat
  fresh : ∀ n, s.pool.refs n = 0 → e.pool.refs n = 0
  inHand : ∀ n, e.acquired.count n + (holds n hand).toNat =
    e.released.count n + s.inHand n + (holds n hand').toNat
  acquired : ∀ n, e.acquired.count n ≤ e.taken.count n
  blocks : ∀ d ∈ hand', d.block.isSome = true ↔ 0 < d.length
  notNull : e.nullReleases = 0

section Calls

variable {db : Participants} {participants : ParticipantId → CommonParticipant} {s : State} {t : Task}
variable {hand : Option RouterData} {i : Nat}

/-- A step without calls. -/
theorem called_none (h : Inv db participants s) (hhand : s.hands[i]? = some hand) :
    Called db participants s hand hand s := by
  refine ⟨h.fit, h.sound, fun n => ?_, fun n hn => hn, fun n => ?_, h.acquired, fun d hd => ?_, h.notNull⟩
  · rw [h.refs]
  · rw [h.inHand]
  · cases hd
    exact h.blocks d (mem_of_at hhand)

/-- One writer is offered the data of a task. -/
theorem called_offer (h : Inv db participants s) {d d' : RouterData} (hhand : s.hands[i]? = some (some d))
    (hblock : d'.block = d.block) {key : ReaderKey} {o : WriteOutcome} {r : RPC.Outcome × State}
    (hr : s.offer db key d' o = some r) : Called db participants s (some d) (some d) r.2 := by
  simp only [State.offer] at hr
  split at hr
  · rename_i hkey
    obtain ⟨⟨result, w'⟩, hw, rfl⟩ := Option.map_eq_some_iff.mp hr
    have hmem : key ∈ db.endpoints := Participants.mem_endpoints.mpr hkey
    have hlive : d'.length > 0 → ∀ n ∈ d'.block, 0 < s.pool.refs n := by
      intro _ n hn
      have hhold : holds n (some d) = true := by
        rw [hblock] at hn
        simpa [holds] using hn
      have := countP_pos_of_at hhand hhold
      rw [h.refs, State.inHand]
      omega
    have hle : ∀ k, (s.writers key).held k ≤ s.pool.refs k := by
      intro k
      have := RefCount.le_sum hmem s.writers fun w => w.held k
      rw [h.refs, State.inWriters]
      omega
    obtain ⟨hsound, hrefs, hfresh⟩ := IWriter.writePool_spec (h.fit key) hw h.sound hlive hle
    refine ⟨fun k => ?_, hsound, fun n => ?_, hfresh, fun n => ?_, h.acquired, fun x hx => ?_, h.notNull⟩
    · by_cases hk : k = key
      · subst hk
        simp only [Function.update_self]
        exact (IWriter.write_cases (h.fit k) hw).1
      · simp only [Function.update_of_ne hk]
        exact h.fit k
    · have hsum := RefCount.sum_update hmem s.writers w' fun w => w.held n
      have hold := h.refs n
      have := hrefs n
      simp only [State.inWriters] at hold ⊢
      omega
    · rw [h.inHand]
    · cases hx
      exact h.blocks d (mem_of_at hhand)
  · cases hr

/-- `take` acquires a reference exactly for data that has length. -/
theorem called_taken (h : Inv db participants s) {key : ReaderKey} {n : Nat} {c : CacheChange}
    {rest : List (Arrival CacheChange)} (hh : (s.rpc.reader key).history = (n, c) :: rest)
    (qos : SpecificEndpointQoS) :
    Called db participants s none (some (takenData n ((s.rpc.reader key).fillReceivedData c) qos))
      { s.acquire (takenData n ((s.rpc.reader key).fillReceivedData c) qos) with taken := n :: s.taken } := by
  set data := (s.rpc.reader key).fillReceivedData c with hdata
  have hlength : data.length = c.length := (s.rpc.reader key).length_fillReceivedData c
  by_cases hlen : data.length > 0
  · -- the change of the reader still has its reference
    have hpos : 0 < s.pool.refs n := by
      have hmem : (n, c) ∈ (s.rpc.reader key).history := by simp [hh]
      have hheld := Reader.held_pos hmem (hlength ▸ hlen) (h.sized key (n, c) hmem)
      have hkey : key ∈ db.endpoints := by
        by_contra hnot
        rw [h.outside key hnot] at hh
        cases hh
      have := RefCount.le_sum hkey s.rpc.reader fun r => r.held n
      rw [h.refs, State.inReaders]
      omega
    have hholds : ∀ k, (holds k (some (takenData n data qos))).toNat = if k = n then 1 else 0 := by
      intro k
      by_cases hk : k = n
      · simp [holds, takenData, hlen, hk]
      · simp [holds, takenData, hlen, hk, Ne.symm hk]
    simp only [State.acquire, takenData, if_pos hlen]
    refine ⟨h.fit, RefCount.Pool.sound_share h.sound hpos, fun k => ?_, fun k hk => ?_, fun k => ?_, fun k => ?_,
      fun d hd => ?_, h.notNull⟩
    · have hold := h.refs k
      have := hholds k
      simp only [takenData, if_pos hlen, State.inWriters] at this hold ⊢
      rw [RefCount.Pool.refs_share, this]
      simp only [holds, Option.any_none, Bool.toNat_false]
      omega
    · have hne : k ≠ n := by
        rintro rfl
        omega
      rw [RefCount.Pool.refs_share, if_neg hne, hk]
    · have hold := h.inHand k
      have := hholds k
      simp only [takenData, if_pos hlen] at this
      rw [this, count_cons_ite]
      simp only [holds, Option.any_none, Bool.toNat_false]
      omega
    · have := h.acquired k
      rw [List.count_cons, List.count_cons]
      omega
    · cases hd
      simpa using hlen
  · simp only [State.acquire, takenData, if_neg hlen]
    refine ⟨h.fit, h.sound, fun k => ?_, fun k hk => hk, fun k => ?_, fun k => ?_, fun d hd => ?_, h.notNull⟩
    · have hold := h.refs k
      simpa [holds, State.inWriters] using hold
    · have hold := h.inHand k
      simpa [holds] using hold
    · exact (h.acquired k).trans List.count_le_count_cons
    · cases hd
      simpa using hlen

/-- A task that finishes with data that has length gives up its reference. -/
theorem called_release (h : Inv db participants s) {d : RouterData} (hhand : s.hands[i]? = some (some d))
    (hlen : 0 < d.length) : Called db participants s (some d) none (s.releasePayload d) := by
  obtain ⟨n, hn⟩ := Option.isSome_iff_exists.mp ((h.blocks d (mem_of_at hhand)).mpr hlen)
  have hholds : ∀ k, (holds k (some d)).toNat = if k = n then 1 else 0 := by
    intro k
    by_cases hk : k = n
    · simp [holds, hn, hk]
    · simp [holds, hn, hk, Ne.symm hk]
  have hin : ∀ k, (holds k (some d)).toNat ≤ s.inHand k := fun k => toNat_le_countP (holds k) hhand
  have hpos : 0 < s.pool.refs n := by
    have := hin n
    have := hholds n
    rw [if_pos rfl] at this
    rw [h.refs]
    omega
  simp only [State.releasePayload, hn]
  refine ⟨h.fit, RefCount.Pool.sound_release h.sound hpos, fun k => ?_, fun k hk => ?_, fun k => ?_, h.acquired,
    by simp, h.notNull⟩
  · have hold := h.refs k
    have := hin k
    have := hholds k
    simp only [State.inWriters] at hold ⊢
    simp only [RefCount.Pool.refs_release, holds, Option.any_none, Bool.toNat_false] at *
    omega
  · rw [RefCount.Pool.refs_release, hk, Nat.zero_sub]
  · have hold := h.inHand k
    have := hin k
    have := hholds k
    rw [hholds, count_cons_ite]
    simp only [holds, Option.any_none, Bool.toNat_false]
    omega

end Calls

section Steps

variable {db : Participants} {participants : ParticipantId → CommonParticipant} {s s' : State}

/-- The task at one place goes on after its calls, with the reader that it has changed. -/
theorem inv_advance (h : Inv db participants s) {i : Nat} {key : ReaderKey} {hand hand' : Option RouterData}
    {e : State} {u : RPC.State} {x : Option TransmitPc} {r : Reader} {p : Arrival CacheChange → Bool}
    (hhand : s.hands[i]? = some hand) (hcalled : Called db participants s hand hand' e)
    (hx : (∀ pc ∈ x, hand'.isSome = pc.hasData) ∧ (x = none → hand' = none))
    (hreader : u.reader = Function.update s.rpc.reader key r)
    (hhist : r.history = (s.rpc.reader key).history.filter p) (harr : u.arrivals = s.rpc.arrivals)
    (htaken : ∀ n, r.numbers.count n + e.taken.count n ≤ (s.rpc.reader key).numbers.count n + s.taken.count n) :
    Inv db participants { e with
      rpc := { u with running := advance s.rpc.running i (x.map (Task.mk key)) }
      hands := advance s.hands i (x.map fun _ => hand')
      pool := e.pool.releaseAll (gone (s.rpc.reader key).history (u.reader key).history) } := by
  have hempty : key ∉ db.endpoints → r.history = [] := by
    intro hkey
    rw [hhist, h.outside key hkey, List.filter_nil]
  have hself : u.reader key = r := by rw [hreader, Function.update_self]
  have hgone : ∀ n, (gone (s.rpc.reader key).history (u.reader key).history).count n + r.held n =
      (s.rpc.reader key).held n := by
    intro n
    rw [hself]
    exact gone_filter _ _ hhist n
  have hheld : ∀ n, (∑ k ∈ db.endpoints, (u.reader k).held n) + (s.rpc.reader key).held n =
      s.inReaders db n + r.held n := by
    intro n
    rw [hreader]
    exact sum_readers h hempty fun r hr => held_of_empty hr n
  have hfly : ∀ n, (advance s.hands i (x.map fun _ => hand')).countP (holds n) + (holds n hand).toNat =
      s.inHand n + (holds n hand').toNat := by
    intro n
    have hcount := countP_advance (holds n) hhand (x.map fun _ => hand')
    cases x with
    | none =>
      rw [hx.2 rfl]
      exact hcount
    | some pc => exact hcount
  have hle : ∀ n, (gone (s.rpc.reader key).history (u.reader key).history).count n ≤ e.pool.refs n := by
    intro n
    have := hgone n
    have := hheld n
    have := hcalled.refs n
    have : (holds n hand).toNat ≤ s.inHand n := toNat_le_countP (holds n) hhand
    omega
  obtain ⟨hsound, hrefs⟩ := RefCount.Pool.releaseAll_spec hcalled.sound hle
  have houtside : ∀ k, k ∉ db.endpoints → (u.reader k).history = [] := by
    rw [hreader]
    exact (Function.forall_update_iff s.rpc.reader fun k r => k ∉ db.endpoints → r.history = []).mpr
      ⟨hempty, fun k _ => h.outside k⟩
  have hsized : ∀ k, ∀ a ∈ (u.reader k).history, a.2.length ≤ a.2.maxSize := by
    rw [hreader]
    refine (Function.forall_update_iff s.rpc.reader fun _ r => ∀ a ∈ r.history, a.2.length ≤ a.2.maxSize).mpr
      ⟨fun a ha => ?_, fun k _ => h.sized k⟩
    rw [hhist] at ha
    exact h.sized key a (List.mem_of_mem_filter ha)
  refine ⟨?_, fun d hd => ?_, houtside, fun n => ?_, hsized, hcalled.fit, hsound, fun n => ?_,
    fun n hn => ?_, fun n => ?_, hcalled.acquired, hcalled.notNull⟩
  · refine forall₂_advance h.hands i ?_
    cases x with
    | none => exact .none
    | some pc => exact .some (hx.1 pc rfl)
  · rcases mem_advance hd with hd | hd
    · exact h.blocks d hd
    · obtain ⟨pc, -, hd⟩ := Option.map_eq_some_iff.mp hd
      exact hcalled.blocks d hd
  · have hsum := sum_readers h hempty fun r hr => count_of_empty (r := r) hr n
    have := h.numbering n
    have := htaken n
    change (∑ k ∈ db.endpoints, (u.reader k).numbers.count n) + e.taken.count n ≤ if n < u.arrivals then 1 else 0
    rw [hreader, harr]
    omega
  · have := hgone n
    have := hheld n
    have := hcalled.refs n
    have := hfly n
    have := hle n
    change (e.pool.releaseAll _).refs n = (∑ k ∈ db.endpoints, (u.reader k).held n) + e.inWriters db n +
      (advance s.hands i (x.map fun _ => hand')).countP (holds n)
    rw [hrefs]
    omega
  · change u.arrivals ≤ n at hn
    rw [harr] at hn
    change (e.pool.releaseAll _).refs n = 0
    rw [hrefs, hcalled.fresh n (h.fresh n hn), Nat.zero_sub]
  · have := hcalled.inHand n
    have := hfly n
    change e.acquired.count n = e.released.count n + (advance s.hands i (x.map fun _ => hand')).countP (holds n)
    omega

/-- The same for a step that leaves all readers alone. -/
theorem inv_kept (h : Inv db participants s) {i : Nat} {key : ReaderKey} {hand hand' : Option RouterData}
    {e : State} {u : RPC.State} {x : Option TransmitPc} (hhand : s.hands[i]? = some hand)
    (hcalled : Called db participants s hand hand' e)
    (hx : (∀ pc ∈ x, hand'.isSome = pc.hasData) ∧ (x = none → hand' = none))
    (hreader : u.reader = s.rpc.reader ∧ u.arrivals = s.rpc.arrivals) (htaken : e.taken = s.taken) :
    Inv db participants { e with
      rpc := { u with running := advance s.rpc.running i (x.map (Task.mk key)) }
      hands := advance s.hands i (x.map fun _ => hand')
      pool := e.pool.releaseAll (gone (s.rpc.reader key).history (u.reader key).history) } := by
  refine inv_advance (r := s.rpc.reader key) (p := fun _ => true) h hhand hcalled hx ?_ ?_ hreader.2 fun n => ?_
  · rw [hreader.1, Function.update_eq_self]
  · rw [List.filter_true]
  · rw [htaken]

theorem offer_taken {key : ReaderKey} {d : RouterData} {o : WriteOutcome} {r : RPC.Outcome × State}
    (hr : s.offer db key d o = some r) : r.2.taken = s.taken := by
  simp only [State.offer] at hr
  split at hr
  · obtain ⟨w, -, rfl⟩ := Option.map_eq_some_iff.mp hr
    rfl
  · cases hr

theorem inv_take (h : Inv db participants s) {i : Nat} {o : Answers} {key : ReaderKey} {hand' : Option RouterData}
    {out : RPC.Outcome} {e : State} {u : RPC.State} {x : Option TransmitPc} (hhand : s.hands[i]? = some none)
    (hcalls : s.calls db ⟨key, .take⟩ none o = some (out, hand', e))
    (hu : transmitStep db out s.rpc key .take = some (u, x)) :
    Inv db participants { e with
      rpc := { u with running := advance s.rpc.running i (x.map (Task.mk key)) }
      hands := advance s.hands i (x.map fun _ => hand')
      pool := e.pool.releaseAll (gone (s.rpc.reader key).history (u.reader key).history) } := by
  have htk := (s.rpc.reader key).take_takes o.found
  simp only [State.calls] at hcalls
  generalize hres : (s.rpc.reader key).take o.found = res at htk hcalls
  -- what `take` leaves of the history when it removes its first change
  have hfilter : ∀ {n : Nat} {c : CacheChange} {rest : List (Arrival CacheChange)},
      (s.rpc.reader key).history = (n, c) :: rest →
        rest = (s.rpc.reader key).history.filter fun e => e.1 ≠ n := by
    intro n c rest hh
    refine Reader.rest_eq_filter ?_ hh
    have := count_le h key n
    split at this <;> omega
  have hcount : ∀ {n : Nat} {c : CacheChange} {rest : List (Arrival CacheChange)} (k : Nat),
      (s.rpc.reader key).history = (n, c) :: rest →
        (Reader.numbers { s.rpc.reader key with history := rest }).count k + (if n = k then 1 else 0) =
          (s.rpc.reader key).numbers.count k := by
    intro n c rest k hh
    simp only [Reader.numbers, hh, List.map_cons, List.count_cons, beq_iff_eq]
  cases htk with
  | notEnabled | noData | notFound =>
    cases hcalls
    simp only [transmitStep, hres] at hu
    cases hu
    refine inv_kept h hhand (called_none h hhand) ⟨?_, by simp⟩ ⟨?_, rfl⟩ rfl
    · simp [TransmitPc.hasData]
    · rw [reader_setReader_eq, Function.update_eq_self]
  | discarded n c rest he hh =>
    cases hcalls
    simp only [transmitStep, hres] at hu
    cases hu
    refine inv_advance h hhand (called_none h hhand) ⟨?_, by simp⟩ (reader_setReader_eq _ _ _) (hfilter hh) rfl
      fun k => ?_
    · simp [TransmitPc.hasData]
    · have := hcount k hh
      simp only [Reader.numbers] at this ⊢
      omega
  | taken n c rest he hh hd =>
    cases hcalls
    simp only [transmitStep, hres] at hu
    have hmove : u.reader = Function.update s.rpc.reader key { s.rpc.reader key with history := rest } ∧
        u.arrivals = s.rpc.arrivals ∧ ∃ pc, x = some pc ∧ pc.hasData = true := by
      split at hu
      · cases hu
        refine ⟨reader_setReader_eq s.rpc key _, rfl, _, rfl, ?_⟩
        split <;> rfl
      · split at hu
        · cases hu
          refine ⟨reader_setReader_eq s.rpc key _, rfl, _, rfl, ?_⟩
          split <;> rfl
        · cases hu
    obtain ⟨hreader, harr, pc, rfl, hpc⟩ := hmove
    refine inv_advance h hhand (called_taken h hh o.writerQos) ⟨?_, by simp⟩ hreader (hfilter hh) harr fun k => ?_
    · intro pc' hpc'
      cases hpc'
      rw [hpc]
      rfl
    · have := hcount k hh
      simp only [Reader.numbers, List.count_cons, beq_iff_eq] at this ⊢
      omega

/-- The steps of a task keep the invariant as long as the samples that it finishes
with have length. -/
theorem inv_transmit (h : Inv db participants s) {i : Nat} {o : Answers}
    (hC : FinishesWithLength s (.transmit i o)) (hs : step db s (.transmit i o) = some s') :
    Inv db participants s' := by
  simp only [step, Option.bind_eq_some_iff, Option.map_eq_some_iff] at hs
  obtain ⟨⟨key, pc⟩, ht, ⟨out, hand', e⟩, hcalls, ⟨u, x⟩, hu, rfl⟩ := hs
  obtain ⟨hand, hhand, hdata⟩ := forall₂_at h.hands ht
  rw [hhand, Option.join_some] at hcalls
  have hmove := transmitStep_move hu
  -- a step in which the task keeps what it has
  have hkeep : pc ≠ .take → pc ≠ .release → Called db participants s hand hand e → hand' = hand →
      e.taken = s.taken → Inv db participants { e with
        rpc := { u with running := advance s.rpc.running i (x.map (Task.mk key)) }
        hands := advance s.hands i (x.map fun _ => hand')
        pool := e.pool.releaseAll (gone (s.rpc.reader key).history (u.reader key).history) } := by
    rintro htake hrelease hcalled rfl htaken
    obtain ⟨hsome, hnone⟩ := transmitMove_hasData hmove htake hrelease
    refine inv_kept h hhand hcalled ⟨fun pc' hpc' => ?_, fun hx => ?_⟩ (transmitMove_reader hmove htake) htaken
    · rw [hdata, hsome pc' hpc']
    · rw [hnone hx] at hdata
      simpa using hdata
  cases pc with
  | take =>
    have hnone : hand = none := by simpa [TransmitPc.hasData] using hdata
    subst hnone
    exact inv_take h hhand hcalls hu
  | lock | test | fanOut | lookup | erase =>
    simp only [State.calls, Option.some.injEq, Prod.mk.injEq] at hcalls
    obtain ⟨-, rfl, rfl⟩ := hcalls
    exact hkeep (by simp) (by simp) (called_none h hhand) rfl rfl
  | send n data identity id rest =>
    obtain ⟨d, rfl⟩ := Option.isSome_iff_exists.mp hdata
    simp only [State.calls, Option.map_eq_some_iff] at hcalls
    obtain ⟨r, hr, hcalls⟩ := hcalls
    cases hcalls
    exact hkeep (by simp) (by simp) (called_offer (d := d) h hhand (by rfl) hr) rfl (offer_taken hr)
  | reply data entry =>
    obtain ⟨d, rfl⟩ := Option.isSome_iff_exists.mp hdata
    simp only [State.calls, Option.map_eq_some_iff] at hcalls
    obtain ⟨r, hr, hcalls⟩ := hcalls
    cases hcalls
    exact hkeep (by simp) (by simp) (called_offer (d := d) h hhand (by rfl) hr) rfl (offer_taken hr)
  | release =>
    obtain ⟨d, rfl⟩ := Option.isSome_iff_exists.mp hdata
    have hlen : 0 < d.length := hC _ ht rfl d (by simp [hhand])
    cases hcalls
    cases hu
    refine inv_kept h hhand (called_release h hhand hlen) ⟨by simp [TransmitPc.hasData], by simp⟩ ⟨rfl, rfl⟩ ?_
    simp only [State.releasePayload]
    split <;> rfl

/-- Steps that touch neither the histories nor the tasks nor the pool. -/
theorem inv_quiet (h : Inv db participants s) {r : RPC.State} {w : ReaderKey → IWriter}
    (hr : r.running = s.rpc.running ∧ r.arrivals = s.rpc.arrivals ∧
      ∀ key, (r.reader key).history = (s.rpc.reader key).history)
    (hw : ∀ key, IWriter.Fit (participants key.2) (w key) ∧ ∀ n, (w key).held n = (s.writers key).held n) :
    Inv db participants { s with rpc := r, writers := w } := by
  obtain ⟨hrunning, harr, hhist⟩ := hr
  refine ⟨?_, h.blocks, fun key hkey => ?_, fun n => ?_, fun key e he => ?_, fun key => (hw key).1, h.sound,
    fun n => ?_, fun n hn => ?_, h.inHand, h.acquired, h.notNull⟩
  · rw [hrunning]
    exact h.hands
  · rw [hhist]
    exact h.outside key hkey
  · simp only [Reader.numbers, hhist, harr]
    exact h.numbering n
  · rw [hhist] at he
    exact h.sized key e he
  · simp only [State.inReaders, State.inWriters, Reader.held, hhist, (hw _).2]
    exact h.refs n
  · exact h.fresh n (harr ▸ hn)

/-- The pool has a block for a change that arrives with room for data. -/
theorem reserve_arrival (h : Inv db participants s) (c : CacheChange) :
    (if 0 < c.maxSize then s.pool.reserve s.rpc.arrivals else s.pool).Sound ∧
      ∀ n, (if 0 < c.maxSize then s.pool.reserve s.rpc.arrivals else s.pool).refs n =
        s.pool.refs n + if n = s.rpc.arrivals ∧ 0 < c.maxSize then 1 else 0 := by
  have hzero := h.fresh s.rpc.arrivals le_rfl
  by_cases hsize : 0 < c.maxSize
  · rw [if_pos hsize]
    refine ⟨RefCount.Pool.sound_reserve h.sound hzero, fun n => ?_⟩
    rw [RefCount.Pool.refs_reserve]
    by_cases hn : n = s.rpc.arrivals
    · simp [hsize, hn, hzero]
    · simp [hn]
  · rw [if_neg hsize]
    exact ⟨h.sound, fun n => by simp [hsize]⟩

/-- A change that arrives adds its own number at most. -/
theorem count_numbers_arrive {r r' : Reader} {m : Nat} {c : CacheChange} {p : Arrival CacheChange → Bool}
    (hhist : r'.history = (r.received m c).history.filter p) (n : Nat) :
    r'.numbers.count n ≤ r.numbers.count n + if n = m then 1 else 0 := by
  have hsub : r'.numbers.Sublist (r.received m c).numbers := by
    rw [Reader.numbers, hhist]
    exact List.filter_sublist.map _
  refine (hsub.count_le n).trans (le_of_eq ?_)
  rw [Reader.count_numbers_received]
  simp only [beq_iff_eq, eq_comm (a := n)]

/-- A change arrives in a block of its own. -/
theorem inv_arrive (h : Inv db participants s) {key : ReaderKey} {c : CacheChange} (hkey : key.2 ∈ db.ids)
    (hsized : c.length ≤ c.maxSize) :
    Inv db participants { s.outside (arrive s.rpc key c) (.arrive key c) with rpc := arrive s.rpc key c } := by
  obtain ⟨hrunning, harr, r, p, hreader, hhist⟩ := arrive_reader s.rpc key c
  have hmem : key ∈ db.endpoints := Participants.mem_endpoints.mpr hkey
  have hself : (arrive s.rpc key c).reader key = r := by rw [hreader, Function.update_self]
  set pool := if 0 < c.maxSize then s.pool.reserve s.rpc.arrivals else s.pool with hpool
  set new : Nat → Nat := fun n => if n = s.rpc.arrivals ∧ 0 < c.maxSize then 1 else 0 with hnew
  obtain ⟨hsound, hrefs⟩ : pool.Sound ∧ ∀ n, pool.refs n = s.pool.refs n + new n := reserve_arrival h c
  have hgone : ∀ n, (gone ((s.rpc.reader key).received s.rpc.arrivals c).history r.history).count n + r.held n =
      (s.rpc.reader key).held n + new n := by
    intro n
    rw [gone_filter _ r hhist n]
    rw [Reader.held, (Reader.history_received _ _ c).countP_eq, List.countP_cons]
    simp only [Reader.held, decide_eq_true_eq, hnew, eq_comm (a := n)]
  have hheld : ∀ n, (∑ k ∈ db.endpoints, ((arrive s.rpc key c).reader k).held n) + (s.rpc.reader key).held n =
      s.inReaders db n + r.held n := by
    intro n
    rw [hreader]
    exact RefCount.sum_update hmem s.rpc.reader r fun r => r.held n
  have hle : ∀ n, (gone ((s.rpc.reader key).received s.rpc.arrivals c).history r.history).count n ≤ pool.refs n := by
    intro n
    have := hgone n
    have := hheld n
    have := h.refs n
    have := hrefs n
    omega
  obtain ⟨hsound', hrefs'⟩ := RefCount.Pool.releaseAll_spec hsound hle
  simp only [State.outside, hself, ← hpool]
  have hsizedAll : ∀ k, ∀ e ∈ ((arrive s.rpc key c).reader k).history, e.2.length ≤ e.2.maxSize := by
    rw [hreader]
    refine (Function.forall_update_iff s.rpc.reader fun _ r => ∀ e ∈ r.history, e.2.length ≤ e.2.maxSize).mpr
      ⟨fun e he => ?_, fun k _ => h.sized k⟩
    rw [hhist] at he
    rcases Reader.mem_history_received.mp (List.mem_of_mem_filter he) with rfl | he
    · exact hsized
    · exact h.sized key e he
  refine ⟨?_, h.blocks, fun k hk => ?_, fun n => ?_, hsizedAll, h.fit, hsound', fun n => ?_, fun n hn => ?_,
    h.inHand, h.acquired, h.notNull⟩
  · rw [hrunning]
    exact h.hands
  · have hne : k ≠ key := fun hk' => hk (hk' ▸ hmem)
    rw [hreader, Function.update_of_ne hne]
    exact h.outside k hk
  · have hsum := RefCount.sum_update hmem s.rpc.reader r fun r => r.numbers.count n
    have hcount := count_numbers_arrive hhist n
    have hnum := h.numbering n
    change (∑ k ∈ db.endpoints, ((arrive s.rpc key c).reader k).numbers.count n) + s.taken.count n ≤
      if n < (arrive s.rpc key c).arrivals then 1 else 0
    rw [hreader, harr]
    by_cases hn : n = s.rpc.arrivals
    · simp only [hn, lt_self_iff_false, if_true, if_false, Nat.lt_succ_self] at *
      omega
    · have hlt : n < s.rpc.arrivals + 1 ↔ n < s.rpc.arrivals := by omega
      simp only [hn, if_false, hlt] at *
      omega
  · have := hgone n
    have := hheld n
    have := h.refs n
    have := hrefs n
    have := hle n
    change (pool.releaseAll _).refs n =
      (∑ k ∈ db.endpoints, ((arrive s.rpc key c).reader k).held n) + s.inWriters db n + s.inHand n
    rw [hrefs']
    omega
  · change (arrive s.rpc key c).arrivals ≤ n at hn
    rw [harr] at hn
    have hne : n ≠ s.rpc.arrivals := by omega
    have hfresh := h.fresh n (by omega)
    change (pool.releaseAll _).refs n = 0
    rw [hrefs', hrefs, hfresh]
    simp [hnew, hne]

theorem inv_bridge (h : Inv db participants s) {a : RPC.Action} (hs : step db s (.bridge a) = some s') :
    Inv db participants s' := by
  have hsame : ∀ key, IWriter.Fit (participants key.2) (s.writers key) ∧
      ∀ n, (s.writers key).held n = (s.writers key).held n := fun key => ⟨h.fit key, fun _ => rfl⟩
  cases a with
  | transmit i o => cases hs
  | arrive key c =>
    simp only [step, RPC.step] at hs
    split at hs
    · rename_i hsized
      obtain ⟨r, hr, rfl⟩ := Option.map_eq_some_iff.mp hs
      split at hr
      · rename_i hkey
        cases hr
        simp only [Bool.and_eq_true, decide_eq_true_eq] at hkey
        exact inv_arrive h hkey.2 (by simpa [Sized] using hsized)
      · cases hr
    · cases hs
  | start i =>
    obtain ⟨r, hr, rfl⟩ := Option.map_eq_some_iff.mp hs
    simp only [RPC.step, Option.map_eq_some_iff] at hr
    obtain ⟨key, -, rfl⟩ := hr
    have hcount : ∀ n, (s.hands ++ [none]).countP (holds n) = s.inHand n := by
      intro n
      simp [State.inHand, holds]
    refine ⟨List.rel_append h.hands (.cons rfl .nil), fun d hd => ?_, h.outside, h.numbering, h.sized, h.fit,
      h.sound, fun n => ?_, h.fresh, fun n => ?_, h.acquired, h.notNull⟩
    · exact h.blocks d (by simpa [State.outside] using hd)
    · change s.pool.refs n = _ + _ + (s.hands ++ [none]).countP (holds n)
      rw [hcount]
      exact h.refs n
    · change s.acquired.count n = s.released.count n + (s.hands ++ [none]).countP (holds n)
      rw [hcount]
      exact h.inHand n
  | enable created =>
    obtain ⟨r, hr, rfl⟩ := Option.map_eq_some_iff.mp hs
    have hquiet := step_quiet hr (by simp) (by simp) (by simp)
    simp only [State.outside]
    split
    · exact inv_quiet h hquiet fun key => ⟨IWriter.fit_enable (h.fit key), IWriter.held_enable _⟩
    · exact inv_quiet h hquiet hsame
  | control =>
    obtain ⟨r, hr, rfl⟩ := Option.map_eq_some_iff.mp hs
    have hquiet := step_quiet hr (by simp) (by simp) (by simp)
    simp only [State.outside]
    split
    · exact inv_quiet h hquiet fun key => ⟨IWriter.fit_disable (h.fit key), IWriter.held_disable _⟩
    · exact inv_quiet h hquiet hsame
  | discovered | removed | disable | disableCall =>
    obtain ⟨r, hr, rfl⟩ := Option.map_eq_some_iff.mp hs
    exact inv_quiet h (step_quiet hr (by simp) (by simp) (by simp)) hsame

theorem inv_removeChange (h : Inv db participants s) {key : ReaderKey} {qos : SpecificEndpointQoS} {i : Nat}
    (hs : step db s (.removeChange key qos i) = some s') : Inv db participants s' := by
  simp only [step] at hs
  split at hs
  · rename_i hkey
    cases hs
    have hmem : key ∈ db.endpoints := Participants.mem_endpoints.mpr hkey
    have hheld := (s.writers key).held_removeChange qos i
    have hle : ∀ n, (((s.writers key).changeAt qos i).toList.filterMap WriterChange.block).count n ≤
        s.pool.refs n := by
      intro n
      have := hheld n
      have := RefCount.le_sum hmem s.writers fun w => w.held n
      rw [h.refs, State.inWriters]
      omega
    obtain ⟨hsound, hrefs⟩ := RefCount.Pool.releaseAll_spec h.sound hle
    refine ⟨h.hands, h.blocks, h.outside, h.numbering, h.sized, fun k => ?_, hsound, fun n => ?_, fun n hn => ?_,
      h.inHand, h.acquired, h.notNull⟩
    · by_cases hk : k = key
      · subst hk
        simp only [Function.update_self]
        exact IWriter.fit_removeChange (h.fit k) qos i
      · simp only [Function.update_of_ne hk]
        exact h.fit k
    · have hsum := RefCount.sum_update hmem s.writers ((s.writers key).removeChange qos i) fun w => w.held n
      have hold := h.refs n
      have := hheld n
      change (s.pool.releaseAll _).refs n = s.inReaders db n +
        (∑ k ∈ db.endpoints, (Function.update s.writers key ((s.writers key).removeChange qos i) k).held n) + s.inHand n
      simp only [State.inWriters] at hold
      rw [hrefs]
      omega
    · change (s.pool.releaseAll _).refs n = 0
      rw [hrefs, h.fresh n hn, Nat.zero_sub]
  · cases hs

theorem inv_step {a : Action} (hC : FinishesWithLength s a) (h : Inv db participants s)
    (hs : step db s a = some s') : Inv db participants s' := by
  cases a with
  | bridge a => exact inv_bridge h hs
  | transmit i o => exact inv_transmit h hC hs
  | removeChange key qos i => exact inv_removeChange h hs

theorem inv_create (db : Participants) (topic : RPCTopic) (participants : ParticipantId → CommonParticipant)
    (entityIds : ReaderKey → EntityId) : Inv db participants (create db topic participants entityIds) := by
  have hwriter : ∀ key n, ((create db topic participants entityIds).writers key).held n = 0 :=
    fun key n => IWriter.held_createWriter _ _ _ n
  refine ⟨.nil, by simp [create], fun key _ => rfl, fun n => ?_, fun key e he => ?_, fun key => ?_,
    RefCount.Pool.sound_init, fun n => ?_, fun n _ => rfl, fun n => rfl, fun n => le_rfl, rfl⟩
  · have hnone : ∀ key, (RPC.State.reader (RPC.create db topic) key).numbers.count n = 0 := fun _ => rfl
    change (∑ key ∈ db.endpoints, (RPC.State.reader (RPC.create db topic) key).numbers.count n) + 0 ≤ _
    simp [hnone]
  · cases he
  · exact IWriter.fit_createWriter _ _ _
  · have hnone : ∀ key, (RPC.State.reader (RPC.create db topic) key).held n = 0 := fun _ => rfl
    change 0 = (∑ key ∈ db.endpoints, (RPC.State.reader (RPC.create db topic) key).held n) +
      (∑ key ∈ db.endpoints, ((create db topic participants entityIds).writers key).held n) + 0
    simp [hnone, hwriter]

theorem Inv.released (h : Inv db participants s) : Released db s := by
  refine ⟨fun n => ⟨h.inHand n, ?_⟩, h.notNull, h.refs, fun n hn => ?_, h.sound.misused⟩
  · have hnum := h.numbering n
    have htaken := h.acquired n
    split at hnum <;> omega
  · -- the sample has been taken, so no reader has it
    have hpos := List.count_pos_iff.mpr hn
    have hnum := h.numbering n
    have htaken := h.acquired n
    have hhand := h.inHand n
    have hreaders : s.inReaders db n ≤ ∑ key ∈ db.endpoints, (s.rpc.reader key).numbers.count n := by
      refine Finset.sum_le_sum fun key _ => ?_
      rw [Reader.held, Reader.numbers, List.count, List.countP_map]
      refine List.countP_mono_left fun e _ he => ?_
      simp only [decide_eq_true_eq] at he
      simpa using he.1
    rw [h.refs]
    split at hnum <;> omega

/-- A payload without a block is released when a task finishes with a sample
without length. -/
theorem finishesWithLength_of_notNull (h : Inv db participants s) {a : Action} (hs : step db s a = some s')
    (hnull : s'.nullReleases = 0) : FinishesWithLength s a := by
  cases a with
  | bridge | removeChange => trivial
  | transmit i o =>
    intro t ht hpc d hd
    simp only [step, Option.bind_eq_some_iff, Option.map_eq_some_iff] at hs
    obtain ⟨t', ht', ⟨out, hand', e⟩, hcalls, r, -, rfl⟩ := hs
    rw [Option.mem_def, ht', Option.some.injEq] at ht
    subst ht
    rw [Option.mem_def] at hd
    by_contra hlen
    have hmem : some d ∈ s.hands := by
      obtain ⟨hand, hhand, -⟩ := forall₂_at h.hands ht'
      rw [hhand, Option.join_some] at hd
      exact mem_of_at (hd ▸ hhand)
    have hnone : d.block = none := by
      have := h.blocks d hmem
      simpa [hlen] using this
    obtain ⟨key, pc⟩ := t'
    simp only at hpc
    subst hpc
    rw [hd] at hcalls
    cases hcalls
    simp [State.releasePayload, hnone] at hnull

end Steps

/-- In every run of a bridge, whatever samples arrive and whatever the writers
answer, payloads are released exactly as they were acquired if and only if every
sample that `transmit_` finishes with has length. -/
theorem payloads_released_iff_length (db : Participants) (topic : RPCTopic)
    (participants : ParticipantId → CommonParticipant) (entityIds : ReaderKey → EntityId) (as : List Action) :
    Visits (step db) (Released db) (create db topic participants entityIds) as ↔
      Along (step db) FinishesWithLength (create db topic participants entityIds) as :=
  visits_iff_along (I := Inv db participants) (fun _ h => h.released) (fun _ _ _ hC h hs => inv_step hC h hs)
    (fun _ _ _ h hs hQ => finishesWithLength_of_notNull h hs hQ.notNull) (inv_create db topic participants entityIds) as

/-! A service in keyed topics: a client disposes of an instance. -/

def keyedService : RPCTopic :=
  RPCTopic.ofTopic
    { topicName := "rq/add_two_intsRequest", typeName := "AddTwoInts_Request_", keyed := true
      topicQos := { reliabilityQos := .reliable } }

def oneParticipant : Participants where
  ids := [⟨"a"⟩]
  isRepeater _ := false
  guid key := ⟨1, if key.1 = .request then 1 else 2⟩

/-- A change without payload, as a keyed topic may have them. -/
def disposed : CacheChange :=
  { writerGuid := ⟨5, 1⟩, sequenceNumber := 1, length := 0, maxSize := 0, kind := .notAliveDisposed
    sampleIdentity := ⟨⟨5, 2⟩, 1⟩ }

/-- The task of the request reader takes the change, finds nobody to send it to and
finishes with it. -/
def disposedRequest : List Action :=
  (List.flatten
    [[.discovered ⟨"a"⟩ 9, .enable fun _ => .ok], List.replicate 5 .control,
      [.arrive (.request, ⟨"a"⟩) disposed, .start 1]]).map .bridge ++
    List.replicate 6 (.transmit 0 {})

theorem null_payload_released :
    ¬ ∀ (db : Participants) (topic : RPCTopic) (participants : ParticipantId → CommonParticipant)
      (entityIds : ReaderKey → EntityId) (as : List Action),
      Visits (step db) (Released db) (create db topic participants entityIds) as := by
  intro h
  obtain ⟨s, hrun, hnull⟩ : ∃ s, run (step oneParticipant)
      (create oneParticipant keyedService (fun id => ⟨id, 1, false⟩) fun _ => 1) disposedRequest = some s ∧
      s.nullReleases = 1 := ⟨_, rfl, by decide⟩
  have hreleased := visits_last (h oneParticipant keyedService (fun id => ⟨id, 1, false⟩) (fun _ => 1) disposedRequest) hrun
  rw [hreleased.notNull] at hnull
  cases hnull

end RPCPayloads

end DDSRouter
