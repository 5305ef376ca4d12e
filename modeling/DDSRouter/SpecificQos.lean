import DDSRouter.DiscoveryQueue
import DDSRouter.Repeater

/-!
# The QoS of the writer a sample comes from

In a topic with partitions or exclusive ownership the readers of a bridge are
`SpecificQoSReader`s, which look up the writer of every sample in the discovery
database, and the writers are `MultiWriter`s, which forward a sample through the
inner writer of its QoS. The database is filled from its queue while the tracks
of the bridge take and forward samples.
-/
namespace DDSRouter

/-- `none` where the source throws. -/
def DiscoveryDatabase.getEndpoint (db : DiscoveryDatabase) (guid : Guid) : Option Endpoint := db.entities.find guid

namespace SpecificQos

open Runs Threads WeakOrder
open DDSBridge (ParticipantsDatabase Bridge)

/-- The topics that `create_reader_` and `create_writer_` treat apart. -/
def isSpecific (t : DdsTopic) : Bool := t.topicQos.hasPartitions || t.topicQos.hasOwnership

/-- `SpecificQoSReader::fill_received_data_`, after that of `CommonReader`. Where
the writer is not in the database the exception is only logged, and the data has
the QoS that it was created with. -/
def fillWriterQos (db : DiscoveryDatabase) (data : DataReceived) : RouterData :=
  match db.getEndpoint data.sourceGuid with
  | some e => { toDataReceived := data, writerQos := e.specificQos }
  | none => { toDataReceived := data }

/-- What the reader of the topic gives out. -/
def fillReceivedData (db : DiscoveryDatabase) (t : DdsTopic) (data : DataReceived) : RouterData :=
  if isSpecific t then fillWriterQos db data else { toDataReceived := data }

/-- A `take` that returned `RETCODE_OK`, with the entry that the database had
for the writer of the sample at that time. -/
structure Take where
  n : Nat
  data : RouterData
  entry : Option Endpoint
  deriving DecidableEq, Repr

/-- A call of `write` with the sample `n` of the track. -/
structure Write where
  track : ParticipantId
  writer : ParticipantId
  n : Nat
  data : RouterData
  deriving DecidableEq, Repr

structure State (κ : Type) where
  discovery : DiscoveryQueue.State κ
  bridge : Bridge
  writers : ParticipantId → IWriter
  takes : ParticipantId → List Take := fun _ => []
  written : List Write := []

inductive Action (κ : Type) where
  | discovery (a : DiscoveryQueue.Action κ)
  | bridge (a : DDSBridge.Action) (o : WriteOutcome)
  | removeChange (id : ParticipantId) (qos : SpecificEndpointQoS) (i : Nat)

variable {κ : Type}

def create (db : ParticipantsDatabase) (entityId : ParticipantId → EntityId) (discovery : DiscoveryQueue.State κ) :
    State κ :=
  { discovery := discovery
    bridge := DDSBridge.create db
    writers := fun id => (Repeater.participant db id).createWriter (db.createReader id).topic (entityId id) }

/-- The sample that a step of the bridge takes with `RETCODE_OK`. -/
def takeOf (b : Bridge) : DDSBridge.Action → Option (ParticipantId × Nat × DataReceived)
  | .track id (.transmit i found) =>
    match (b.tracks id).running[i]? with
    | some .take =>
      match ((b.tracks id).reader.take found).1 with
      | .taken n data => some (id, n, data)
      | _ => none
    | _ => none
  | _ => none

def recordTake (db : ParticipantsDatabase) (s : State κ) (a : DDSBridge.Action) : ParticipantId → List Take :=
  match takeOf s.bridge a with
  | some (id, n, data) =>
    Function.update s.takes id (s.takes id ++ [{
      n := n
      data := fillReceivedData s.discovery.database (db.createReader id).topic data
      entry := s.discovery.database.getEndpoint data.sourceGuid }])
  | none => s.takes

/-- The data that a task of the track holds since its `take`. -/
def heldData (takes : List Take) (n : Nat) (data : DataReceived) : RouterData :=
  ((takes.find? fun t => t.n = n ∧ t.data.toDataReceived = data).map Take.data).getD { toDataReceived := data }

/-- One call of `write`. -/
def offer (s : State κ) (id p : ParticipantId) (n : Nat) (data : RouterData) (o : WriteOutcome) : Option (State κ) :=
  ((s.writers p).write data o).map fun r =>
    { s with writers := Function.update s.writers p r.2, written := s.written ++ [⟨id, p, n, data⟩] }

/-- The database is read inside the step that takes a sample. -/
def step (db : ParticipantsDatabase) (s : State κ) : Action κ → Option (State κ)
  | .discovery a => (DiscoveryQueue.step s.discovery a).map fun d => { s with discovery := d }
  | .bridge a o =>
    (DDSBridge.step db s.bridge a).bind fun b =>
      let s' : State κ := { s with
        bridge := b
        writers := fun id => if b.writers id then (s.writers id).enable else (s.writers id).disable
        takes := recordTake db s a }
      match Repeater.callOf s.bridge a with
      | some (id, p, n, data) => offer s' id p n (heldData (s.takes id) n data) o
      | none => some s'
  | .removeChange id qos i =>
    some { s with writers := Function.update s.writers id ((s.writers id).removeChange qos i) }

/-! ### The property and its condition -/

/-- The take found the writer in the database and gave out its QoS. -/
def Take.Known (t : Take) : Prop := ∃ e, t.entry = some e ∧ t.data.writerQos = e.specificQos

/-- The writer is a `MultiWriter` with an inner writer for the QoS. -/
def HasInner (w : IWriter) (qos : SpecificEndpointQoS) : Prop :=
  ∃ m, w = .multi m ∧ m.writersMap.contains qos = true

/-- Every sample that was taken or written had its writer in the database when it
was taken, and carries the QoS of the entry. A `MultiWriter` has inner writers for
the QoS of such entries alone. -/
structure Transparent (s : State κ) : Prop where
  takes : ∀ id, ∀ t ∈ s.takes id, t.Known
  written : ∀ w ∈ s.written, ∃ t ∈ s.takes w.track, t.n = w.n ∧ t.data = w.data ∧ t.Known
  writers : ∀ p qos, HasInner (s.writers p) qos → ∃ id, ∃ t ∈ s.takes id, t.Known ∧ t.data.writerQos = qos

/-- The first change of the history, if `take` can return it with `RETCODE_OK`. -/
def next (r : Reader) (found : Bool) : Option CacheChange :=
  match r.history with
  | (_, c) :: _ => if r.enabled ∧ found ∧ r.isDataCorrect c = .ok then some c else none
  | [] => none

/-- The change that a step of the bridge takes. -/
def due (b : Bridge) : DDSBridge.Action → Option CacheChange
  | .track id (.transmit i found) =>
    if (b.tracks id).running[i]? = some .take then next (b.tracks id).reader found else none
  | _ => none

/-- If the step takes a change, then its writer is in the database. -/
def Covered (s : State κ) : Action κ → Prop
  | .bridge a _ => ∀ c ∈ due s.bridge a, s.discovery.database.entities.contains c.writerGuid = true
  | _ => True

/-! ### Takes and tracks -/

theorem take_next (r : Reader) (found : Bool) :
    (∃ n c, next r found = some c ∧ (r.take found).1 = .taken n (r.fillReceivedData c)) ∨
      next r found = none ∧ ∀ n data, (r.take found).1 ≠ .taken n data := by
  unfold next Reader.take
  cases he : r.enabled with
  | false =>
    right
    cases r.history <;> simp
  | true =>
    cases hh : r.history with
    | nil => simp
    | cons e rest =>
      obtain ⟨n, c⟩ := e
      cases found with
      | false => simp
      | true =>
        by_cases hd : r.isDataCorrect c = .ok
        · left
          exact ⟨n, c, by simp [hd]⟩
        · right
          simp [hd]

/-- A step takes a sample exactly when one is due. -/
theorem takeOf_due (b : Bridge) (a : DDSBridge.Action) :
    (∃ id n c data, due b a = some c ∧ takeOf b a = some (id, n, data) ∧ data.sourceGuid = c.writerGuid) ∨
      due b a = none ∧ takeOf b a = none := by
  cases a with
  | enable | disable | walk => exact .inr ⟨rfl, rfl⟩
  | track id ta =>
    cases ta with
    | arrive | callback | enable | disable | control | start => exact .inr ⟨rfl, rfl⟩
    | transmit i found =>
      by_cases hp : (b.tracks id).running[i]? = some .take
      · rcases take_next (b.tracks id).reader found with ⟨n, c, hn, ht⟩ | ⟨hn, ht⟩
        · exact .inl ⟨id, n, c, (b.tracks id).reader.fillReceivedData c, by simp [due, hp, hn],
            by simp [takeOf, hp, ht], rfl⟩
        · refine .inr ⟨by simp [due, hp, hn], ?_⟩
          simp only [takeOf, hp]
      · refine .inr ⟨by simp [due, hp], ?_⟩
        simp only [takeOf]

/-- A sample is being written because it was taken in this step or before. -/
theorem step_taken {targets : List ParticipantId} {w w' : Track.Writers} {t t' : Track.State} {ta : Track.Action}
    (hs : Track.step targets (w, t) ta = some (w', t')) {n : Nat} {data : DataReceived} {rest : List ParticipantId}
    (hr : .write n data rest ∈ t'.running) :
    (∃ pre, .write n data (pre ++ rest) ∈ t.running) ∨
      ∃ i found, ta = .transmit i found ∧ t.running[i]? = some .take ∧ (t.reader.take found).1 = .taken n data := by
  have hcallback : ∀ pc, .write n data rest ∈ (Track.callbackStep t pc).1.running → .write n data rest ∈ t.running := by
    intro pc hmem
    obtain ⟨st, r, q, l, hf⟩ := Track.callbackStep_frame t pc
    rwa [hf] at hmem
  cases ta with
  | arrive c =>
    cases hs
    exact .inl ⟨[], hr⟩
  | callback i =>
    obtain ⟨pc, -, -, rfl⟩ := Track.step_callback_inv hs
    exact .inl ⟨[], hcallback pc hr⟩
  | enable | disable =>
    simp only [Track.step] at hs
    split at hs
    · cases hs
      split at hr
      · exact .inl ⟨[], hr⟩
      · exact .inl ⟨[], hr⟩
    · cases hs
  | control =>
    cases Track.step_control_inv hs with
    | enCallback pc hc => exact .inl ⟨[], hcallback pc hr⟩
    | enReader | enSet | enWriter | disSet | disWait | disReader | disWriter | disDone => exact .inl ⟨[], hr⟩
  | start =>
    obtain ⟨-, -, rfl⟩ := Track.step_start_inv hs
    rcases List.mem_append.mp hr with hr | hr
    · exact .inl ⟨[], hr⟩
    · simp at hr
  | transmit i found =>
    simp only [Track.step, Option.bind_eq_some_iff, Option.map_eq_some_iff, Prod.mk.injEq] at hs
    obtain ⟨pc, hpc, ⟨t₁, x⟩, hstep, rfl, rfl⟩ := hs
    rcases mem_advance hr with hmem | rfl
    · exact .inl ⟨[], hmem⟩
    · cases Track.transmitStep_inv hstep with
      | write n data p rest => exact .inl ⟨[p], mem_of_at hpc⟩
      | taken n c rest hen hh =>
        refine .inr ⟨i, found, rfl, hpc, ?_⟩
        simp only [Track.transmitStep] at hstep
        split at hstep
        all_goals simp_all

/-- The same for the tracks of a bridge. -/
theorem step_takeOf {db : ParticipantsDatabase} {b b' : Bridge} {a : DDSBridge.Action}
    (hs : DDSBridge.step db b a = some b') {id : ParticipantId} {n : Nat} {data : DataReceived}
    {rest : List ParticipantId} (hr : .write n data rest ∈ (b'.tracks id).running) :
    (∃ pre, .write n data (pre ++ rest) ∈ (b.tracks id).running) ∨ takeOf b a = some (id, n, data) := by
  cases DDSBridge.step_move hs with
  | stay | begin | done | leave => exact .inl ⟨[], hr⟩
  | enter e q rest' w t hw ht =>
    by_cases hq : id = q
    · subst hq
      simp only [Function.update_self] at hr
      rcases step_taken ht hr with h | ⟨i, found, ha, -⟩
      · exact .inl h
      · cases e <;> simp at ha
    · simp only [Function.update_of_ne hq] at hr
      exact .inl ⟨[], hr⟩
  | inside e q rest' w t hw ht =>
    by_cases hq : id = q
    · subst hq
      simp only [Function.update_self] at hr
      rcases step_taken ht hr with h | ⟨i, found, ha, -⟩
      · exact .inl h
      · cases ha
    · simp only [Function.update_of_ne hq] at hr
      exact .inl ⟨[], hr⟩
  | thread q ta w t hid hother ht =>
    by_cases hq : id = q
    · subst hq
      simp only [Function.update_self] at hr
      rcases step_taken ht hr with h | ⟨i, found, rfl, hp, htake⟩
      · exact .inl h
      · exact .inr (by simp [takeOf, hp, htake])
    · simp only [Function.update_of_ne hq] at hr
      exact .inl ⟨[], hr⟩

/-! ### Inner writers -/

theorem hasInner_enable {w : IWriter} {qos : SpecificEndpointQoS} (h : HasInner w.enable qos) : HasInner w qos := by
  obtain ⟨m, hm, hq⟩ := h
  cases w with
  | simple w => cases hm
  | multi m₀ =>
    cases hm
    refine ⟨m₀, rfl, ?_⟩
    unfold MultiWriter.enable at hq
    split at hq
    · exact hq
    · simpa [MultiWriter.mapWriters, OrdMap.contains] using hq

theorem hasInner_disable {w : IWriter} {qos : SpecificEndpointQoS} (h : HasInner w.disable qos) : HasInner w qos := by
  obtain ⟨m, hm, hq⟩ := h
  cases w with
  | simple w => cases hm
  | multi m₀ =>
    cases hm
    refine ⟨m₀, rfl, ?_⟩
    unfold MultiWriter.disable at hq
    split at hq
    · simpa [MultiWriter.mapWriters, OrdMap.contains] using hq
    · exact hq

theorem hasInner_removeChange {w : IWriter} {qos q : SpecificEndpointQoS} {i : Nat}
    (h : HasInner (w.removeChange q i) qos) : HasInner w qos := by
  obtain ⟨m, hm, hq⟩ := h
  cases w with
  | simple w => cases hm
  | multi m₀ =>
    refine ⟨m₀, rfl, ?_⟩
    simp only [IWriter.removeChange] at hm
    split at hm
    · rename_i cw hf
      cases hm
      rw [OrdMap.contains_set, Bool.or_eq_true] at hq
      rcases hq with hq | hq
      · rw [same_iff_eq.mp hq, OrdMap.contains, hf]
        rfl
      · exact hq
    · cases hm
      exact hq

/-- A `MultiWriter` gets an inner writer for the QoS of the data alone. -/
theorem hasInner_write {w w' : IWriter} {data : RouterData} {o : WriteOutcome} {r : WriteResult}
    (hw : w.write data o = some (r, w')) {qos : SpecificEndpointQoS} (h : HasInner w' qos) :
    HasInner w qos ∨ qos = data.writerQos := by
  obtain ⟨m, rfl, hq⟩ := h
  cases w with
  | simple w => simp [IWriter.write] at hw
  | multi m₀ =>
    simp only [IWriter.write, Option.map_eq_some_iff, Prod.mk.injEq, IWriter.multi.injEq] at hw
    obtain ⟨⟨r', m'⟩, hw, rfl, rfl⟩ := hw
    unfold MultiWriter.write at hw
    split at hw
    · simp only [Option.map_eq_some_iff, Prod.mk.injEq] at hw
      obtain ⟨cw, -, -, rfl⟩ := hw
      rw [OrdMap.contains_set, Bool.or_eq_true] at hq
      rcases hq with hq | hq
      · exact .inr (same_iff_eq.mp hq)
      · exact .inl ⟨m₀, rfl, hq⟩
    · cases hw
      exact .inl ⟨_, rfl, hq⟩

/-! ### The invariant -/

/-- What a track is writing was taken by its reader. -/
def Held (s : State κ) : Prop :=
  ∀ id n data rest, .write n data rest ∈ (s.bridge.tracks id).running →
    ∃ t ∈ s.takes id, t.n = n ∧ t.data.toDataReceived = data

section Steps

variable {db : ParticipantsDatabase} {s s' : State κ}

theorem mem_recordTake {a : DDSBridge.Action} {id : ParticipantId} {t : Take} :
    t ∈ recordTake db s a id ↔ t ∈ s.takes id ∨
      ∃ n data, takeOf s.bridge a = some (id, n, data) ∧ t = {
        n := n
        data := fillReceivedData s.discovery.database (db.createReader id).topic data
        entry := s.discovery.database.getEndpoint data.sourceGuid } := by
  unfold recordTake
  cases ht : takeOf s.bridge a with
  | none => simp
  | some take =>
    obtain ⟨q, n, data⟩ := take
    by_cases hq : id = q
    · subst hq
      simp
    · simp [hq, Ne.symm hq]

/-- In a topic of the kind, a take with an entry gives out the QoS of the entry. -/
theorem known_iff {topic : DdsTopic} (ht : isSpecific topic = true) (database : DiscoveryDatabase) (n : Nat)
    (data : DataReceived) :
    Take.Known { n := n, data := fillReceivedData database topic data, entry := database.getEndpoint data.sourceGuid } ↔
      database.entities.contains data.sourceGuid = true := by
  simp only [Take.Known, fillReceivedData, ht, if_true, fillWriterQos, OrdMap.contains, DiscoveryDatabase.getEndpoint]
  cases database.entities.find data.sourceGuid <;> simp

theorem heldData_mem {takes : List Take} {n : Nat} {data : DataReceived}
    (h : ∃ t ∈ takes, t.n = n ∧ t.data.toDataReceived = data) :
    ∃ t ∈ takes, t.n = n ∧ t.data = heldData takes n data := by
  obtain ⟨t, ht, hn, hd⟩ := h
  unfold heldData
  cases hf : takes.find? fun t => t.n = n ∧ t.data.toDataReceived = data with
  | none => simpa [hn, hd] using List.find?_eq_none.mp hf t ht
  | some u =>
    have hu := List.find?_some hf
    simp only [decide_eq_true_eq] at hu
    exact ⟨u, List.mem_of_find?_eq_some hf, hu.1, rfl⟩

/-- More takes, and inner writers only for what was there. -/
theorem transparent_of_grown (h : Transparent s)
    (htakes : ∀ id, ∀ t ∈ s.takes id, t ∈ s'.takes id) (hnew : ∀ id, ∀ t ∈ s'.takes id, t ∈ s.takes id ∨ t.Known)
    (hwritten : s'.written = s.written) (hinner : ∀ p qos, HasInner (s'.writers p) qos → HasInner (s.writers p) qos) :
    Transparent s' := by
  refine ⟨fun id t ht => ?_, fun w hw => ?_, fun p qos hq => ?_⟩
  · rcases hnew id t ht with hold | hk
    · exact h.takes id t hold
    · exact hk
  · rw [hwritten] at hw
    obtain ⟨t, ht, hrest⟩ := h.written w hw
    exact ⟨t, htakes _ t ht, hrest⟩
  · obtain ⟨id, t, ht, hrest⟩ := h.writers p qos (hinner p qos hq)
    exact ⟨id, t, htakes _ t ht, hrest⟩

theorem transparent_offer {id p : ParticipantId} {n : Nat} {data : RouterData} {o : WriteOutcome}
    (h : Transparent s) (hd : ∃ t ∈ s.takes id, t.n = n ∧ t.data = data)
    (hs : offer s id p n data o = some s') : Transparent s' ∧ s'.bridge = s.bridge ∧ s'.takes = s.takes := by
  simp only [offer, Option.map_eq_some_iff] at hs
  obtain ⟨⟨r, w'⟩, hw, rfl⟩ := hs
  obtain ⟨t, ht, hn, hdata⟩ := hd
  have hknown := h.takes id t ht
  refine ⟨⟨h.takes, fun w hmem => ?_, fun q qos hq => ?_⟩, rfl, rfl⟩
  · rcases List.mem_append.mp hmem with hmem | hmem
    · exact h.written w hmem
    · rw [List.mem_singleton.mp hmem]
      exact ⟨t, ht, hn, hdata, hknown⟩
  · by_cases hqp : q = p
    · subst hqp
      simp only [Function.update_self] at hq
      rcases hasInner_write hw hq with hold | rfl
      · exact h.writers q qos hold
      · exact ⟨id, t, ht, hknown, by rw [hdata]⟩
    · simp only [Function.update_of_ne hqp] at hq
      exact h.writers q qos hq

/-- A step that takes no sample of an unknown writer. -/
theorem transparent_step {a : Action κ} (hspecific : ∀ id, isSpecific (db.createReader id).topic = true)
    (hc : Covered s a) (h : Transparent s) (hheld : Held s) (hs : step db s a = some s') :
    Transparent s' ∧ Held s' := by
  cases a with
  | discovery a =>
    simp only [step, Option.map_eq_some_iff] at hs
    obtain ⟨d, -, rfl⟩ := hs
    exact ⟨⟨h.takes, h.written, h.writers⟩, hheld⟩
  | removeChange id qos i =>
    cases hs
    refine ⟨transparent_of_grown h (fun _ _ ht => ht) (fun _ _ ht => .inl ht) rfl fun p q hq => ?_, hheld⟩
    by_cases hp : p = id
    · subst hp
      simp only [Function.update_self] at hq
      exact hasInner_removeChange hq
    · simp only [Function.update_of_ne hp] at hq
      exact hq
  | bridge a o =>
    simp only [step, Option.bind_eq_some_iff] at hs
    obtain ⟨b, hb, hs⟩ := hs
    let s₁ : State κ := { s with
      bridge := b
      writers := fun id => if b.writers id then (s.writers id).enable else (s.writers id).disable
      takes := recordTake db s a }
    have hgrown : ∀ id, ∀ t ∈ s.takes id, t ∈ s₁.takes id := fun id t ht => mem_recordTake.mpr (.inl ht)
    have hnew : ∀ id, ∀ t ∈ s₁.takes id, t ∈ s.takes id ∨ t.Known := by
      intro id t ht
      rcases mem_recordTake.mp ht with hold | ⟨n, data, htake, rfl⟩
      · exact .inl hold
      · rcases takeOf_due s.bridge a with ⟨q, m, c, d, hdue, ht', hguid⟩ | ⟨-, hnone⟩
        · rw [ht'] at htake
          cases htake
          rw [known_iff (hspecific id), hguid]
          exact .inr (hc c hdue)
        · rw [hnone] at htake
          cases htake
    have h₁ : Transparent s₁ := by
      refine transparent_of_grown h hgrown hnew rfl fun p q hq => ?_
      simp only [s₁] at hq
      split at hq
      · exact hasInner_enable hq
      · exact hasInner_disable hq
    have hheld₁ : Held s₁ := by
      intro id n data rest hr
      rcases step_takeOf hb hr with ⟨pre, hold⟩ | htake
      · obtain ⟨t, ht, hrest⟩ := hheld id n data _ hold
        exact ⟨t, hgrown id t ht, hrest⟩
      · refine ⟨_, mem_recordTake.mpr (.inr ⟨n, data, htake, rfl⟩), rfl, ?_⟩
        unfold fillReceivedData fillWriterQos
        split
        · split <;> rfl
        · rfl
    cases hcall : Repeater.callOf s.bridge a with
    | none =>
      rw [hcall] at hs
      cases hs
      exact ⟨h₁, hheld₁⟩
    | some call =>
      obtain ⟨id, p, n, data⟩ := call
      rw [hcall] at hs
      obtain ⟨rest, hr⟩ := Repeater.callOf_some hcall
      obtain ⟨t, ht, hn, hd⟩ := heldData_mem (hheld id n data _ hr)
      obtain ⟨htr, hbridge, htakes⟩ := transparent_offer h₁ ⟨t, hgrown id t ht, hn, hd⟩ hs
      refine ⟨htr, ?_⟩
      intro q m d rest hmem
      rw [hbridge] at hmem
      rw [htakes]
      exact hheld₁ q m d rest hmem

/-- A step that takes a sample of an unknown writer. -/
theorem covered_of_transparent {a : Action κ} (hspecific : ∀ id, isSpecific (db.createReader id).topic = true)
    (hs : step db s a = some s') (h : Transparent s') : Covered s a := by
  cases a with
  | discovery | removeChange => trivial
  | bridge a o =>
    intro c hdue
    simp only [step, Option.bind_eq_some_iff] at hs
    obtain ⟨b, -, hs⟩ := hs
    have htakes : s'.takes = recordTake db s a := by
      cases hcall : Repeater.callOf s.bridge a with
      | none =>
        rw [hcall] at hs
        cases hs
        rfl
      | some call =>
        rw [hcall] at hs
        simp only [offer, Option.map_eq_some_iff] at hs
        obtain ⟨r, -, rfl⟩ := hs
        rfl
    rcases takeOf_due s.bridge a with ⟨id, n, c', data, hdue', htake, hguid⟩ | ⟨hnone, -⟩
    · rw [hdue, Option.some.injEq] at hdue'
      subst hdue'
      have hknown := h.takes id _ (htakes ▸ mem_recordTake.mpr (.inr ⟨n, data, htake, rfl⟩))
      rw [known_iff (hspecific id), hguid] at hknown
      exact hknown
    · rw [hnone] at hdue
      cases hdue

theorem transparent_create (db : ParticipantsDatabase) (entityId : ParticipantId → EntityId)
    (discovery : DiscoveryQueue.State κ) :
    Transparent (create db entityId discovery) ∧ Held (create db entityId discovery) := by
  refine ⟨⟨?_, ?_, ?_⟩, ?_⟩
  · simp [create]
  · simp [create]
  · rintro p qos ⟨m, hm, hq⟩
    simp only [create, CommonParticipant.createWriter] at hm
    split at hm
    · cases hm
      simp [OrdMap.contains] at hq
    · cases hm
  · intro id n data rest hr
    simp [create, DDSBridge.create, Track.init] at hr

end Steps

/-- In a topic with partitions or exclusive ownership, the samples that are taken
and forwarded carry the QoS of their writer's entry in every state of a run, if
and only if the writer of every sample is in the database when it is taken. -/
theorem transparent_iff (db : ParticipantsDatabase) (hspecific : ∀ id, isSpecific (db.createReader id).topic = true)
    (entityId : ParticipantId → EntityId) (discovery : DiscoveryQueue.State κ) (as : List (Action κ)) :
    Visits (step db) Transparent (create db entityId discovery) as ↔
      Along (step db) Covered (create db entityId discovery) as :=
  visits_iff_along (I := fun s => Transparent s ∧ Held s) (fun _ h => h.1)
    (fun _ _ _ hc h hs => transparent_step hspecific hc h.1 h.2 hs)
    (fun _ _ _ _ hs hq => covered_of_transparent hspecific hs hq)
    (transparent_create db entityId discovery) as

/-! Two participants and a topic with partitions. The operation that adds the
writer of a sample has been pushed; the sample is taken before or after the
operation is processed. -/

instance (s : State κ) : ∀ a, Decidable (Covered s a)
  | .bridge a _ => inferInstanceAs (Decidable (∀ c ∈ due s.bridge a, _))
  | .discovery _ | .removeChange _ _ _ => inferInstanceAs (Decidable True)

def partitioned : DdsTopic := { topicName := "chatter", typeName := "String", topicQos := { usePartitions := true } }

theorem twoIds_nodup : ([⟨"a"⟩, ⟨"b"⟩] : List ParticipantId).Nodup := by decide

def twoParticipants : ParticipantsDatabase where
  ids := [⟨"a"⟩, ⟨"b"⟩]
  nodup := twoIds_nodup
  isRepeater _ := false
  createReader id := { participantId := id, guid := ⟨if id = ⟨"a"⟩ then 7 else 8, 1⟩, topic := partitioned }

def talker : Endpoint where
  kind := .writer
  guid := ⟨9, 1⟩
  topic := partitioned
  discovererParticipantId := ⟨"a"⟩
  specificQos := { partitions := ["A"] }

def discovered : List (Action Unit) := [.discovery .start, .discovery (.push (.add talker))]

def processed : List (Action Unit) := List.replicate 6 (.discovery .thread)

/-- A sample of `talker` arrives in `a` and is written in `b`. -/
def forwarding : List (Action Unit) :=
  (List.flatten [.enable :: List.replicate 11 .walk,
    [.track ⟨"a"⟩ (.arrive { writerGuid := ⟨9, 1⟩, sequenceNumber := 1, length := 4, maxSize := 4 })],
    List.replicate 4 (.track ⟨"a"⟩ (.callback 0)), [.track ⟨"a"⟩ .start],
    List.replicate 5 (.track ⟨"a"⟩ (.transmit 0 true))]).map fun a => .bridge a {}

theorem transparent_of_processed :
    Visits (step twoParticipants) Transparent (create twoParticipants (fun _ => 2) {})
      (discovered ++ processed ++ forwarding) ∧
    ∃ s, run (step twoParticipants) (create twoParticipants (fun _ => 2) {})
        (discovered ++ processed ++ forwarding) = some s ∧
      (s.takes ⟨"a"⟩).map (fun t => (t.data.writerQos, t.entry)) = [({ partitions := ["A"] }, some talker)] ∧
      s.written.map (fun w => (w.writer, w.data.writerQos)) = [(⟨"b"⟩, { partitions := ["A"] })] :=
  ⟨(transparent_iff twoParticipants (fun _ => rfl) (fun _ => 2) {} _).mpr (by decide), _, rfl, rfl, rfl⟩

/-- The sample goes through a writer without partitions. -/
theorem unknown_writer_forwarded :
    ∃ s, run (step twoParticipants) (create twoParticipants (fun _ => 2) {}) (discovered ++ forwarding) = some s ∧
      (s.takes ⟨"a"⟩).map (fun t => (t.data.writerQos, t.entry)) = [({}, none)] ∧
      s.written.map (fun w => (w.writer, w.data.writerQos)) = [(⟨"b"⟩, {})] ∧
      HasInner (s.writers ⟨"b"⟩) {} ∧ ¬ Transparent s := by
  have hrun : run (step twoParticipants) (create twoParticipants (fun _ => 2) {}) (discovered ++ forwarding) = some _ := rfl
  refine ⟨_, hrun, rfl, rfl, ⟨_, rfl, rfl⟩, fun h => ?_⟩
  obtain ⟨e, he, -⟩ := h.takes ⟨"a"⟩ _ (List.mem_singleton_self _)
  cases he

end SpecificQos

end DDSRouter
