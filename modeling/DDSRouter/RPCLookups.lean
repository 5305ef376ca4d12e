import DDSRouter.Lib.Exceptions
import DDSRouter.ParticipantConfiguration
import DDSRouter.RPCParticipants

/-!
# Lookups in the maps of a service bridge

An `RPCBridge` keeps its endpoints and registries in five maps from participants
to shared pointers. The maps are filled by an initialisation that an exception
can end at any of its creations, and that the next `enable` begins again. They
are read through `operator[]`, which inserts a null pointer where it finds no
entry, and what is read is used without a test.

Here are the pointers that the maps hold, beside the bridge with its tasks. A
step first looks up what the code dereferences in it; a null pointer ends the
process. Samples arrive at every reader that has been created, also at those of
an initialisation that failed.
-/
namespace DDSRouter.RPC.Lookups

open Exceptions Exceptions.Prog Runs WeakOrder

/-! ### Participants -/

structure Participant where
  kind : Configuration.ParticipantKind
  isRepeater : Bool := false

def Participant.isRtpsKind (p : Participant) : Bool :=
  match p.kind with
  | .simpleRtps | .localDiscoveryServer | .wanDiscoveryServer | .wanInitialPeers => true
  | .invalid | .blank | .echo | .dummy => false

/-- The participants of the router, with the guids that readers in them get. -/
structure ParticipantsDatabase where
  participants : OrdMap ParticipantId Participant
  guid : ReaderKey → Guid

namespace ParticipantsDatabase

def getRtpsParticipantsIds (db : ParticipantsDatabase) : List ParticipantId :=
  (db.participants.entries.filter fun e => e.2.isRtpsKind).map Prod.fst

def rtps (db : ParticipantsDatabase) : Participants where
  ids := db.getRtpsParticipantsIds
  isRepeater id := (db.participants.find id).any Participant.isRepeater
  guid := db.guid

end ParticipantsDatabase

/-! ### Maps of pointers -/

inductive MapName where
  | requestReaders | replyWriters | requestWriters | replyReaders | serviceRegistries
  deriving DecidableEq, Repr

/-- A shared pointer as a dereference sees it. -/
inductive Pointer where
  | null | object
  deriving DecidableEq, Repr

/-- The map that has the readers of a side. -/
def MapName.readers : Side → MapName
  | .request => .requestReaders
  | .reply => .replyReaders

/-- `ended` says that a null pointer was dereferenced. -/
structure State where
  rpc : RPC.State
  maps : MapName → OrdMap ParticipantId Pointer := fun _ => OrdMap.empty
  ended : Bool := false

/-- A creation that Fast DDS or the participant refused. -/
structure InitializationException where
  map : MapName
  id : ParticipantId

/-- What ends the process is the dereference of a null pointer. -/
abbrev Program (α : Type) := Prog InitializationException State α

namespace State

def setPointer (s : State) (name : MapName) (id : ParticipantId) (p : Pointer) : State :=
  { s with maps := Function.update s.maps name ((s.maps name).set id p) }

def mapBridge (s : State) (f : RPCBridge → RPCBridge) : State :=
  { s with rpc := { s.rpc with bridge := f s.rpc.bridge } }

def setSlot (s : State) (key : ReaderKey) (slot : Slot) : State :=
  { s with rpc := { s.rpc with slots := Function.update s.rpc.slots key slot } }

end State

/-- `operator[]`. -/
def index (name : MapName) (id : ParticipantId) : Program Pointer := do
  let s ← get
  match (s.maps name).find id with
  | some p => return p
  | none =>
    modify fun s => s.setPointer name id .null
    return .null

/-- `operator[]` with a use of what it gives. -/
def dereference (l : MapName × ParticipantId) : Program Unit := do
  let p ← index l.1 l.2
  match p with
  | .object => return ()
  | .null => fun _ => none

/-! ### Initialisation -/

/-- Whether a creation succeeds; `lookedUp` says that the entry for the result had
been looked up when the exception was thrown. The language leaves the order open
before C++17. -/
inductive Answer where
  | created
  | refused (lookedUp : Bool)
  deriving DecidableEq, Repr

abbrev Answers := ParticipantId → MapName → Answer

/-- The assignment of a new endpoint to an entry. -/
def create (answers : Answers) (name : MapName) (id : ParticipantId) : Program Unit :=
  match answers id name with
  | .created => modify fun s => s.setPointer name id .object
  | .refused false => throw { map := name, id := id }
  | .refused true => do
    let _ ← index name id
    throw { map := name, id := id }

/-- `create_slot_` for the reader that was created last. -/
def createSlot (db : ParticipantsDatabase) (side : Side) (id : ParticipantId) : Program Unit := do
  dereference (.readers side, id)
  modify fun s => s.setSlot (side, id) { reader := createReader db.rtps s.rpc.bridge.topic (side, id) }

def createProxyServerNts (db : ParticipantsDatabase) (answers : Answers) (id : ParticipantId) : Program Unit := do
  create answers .replyWriters id
  create answers .requestReaders id
  createSlot db .request id

def createProxyClientNts (db : ParticipantsDatabase) (answers : Answers) (id : ParticipantId) : Program Unit := do
  create answers .requestWriters id
  create answers .replyReaders id
  createSlot db .reply id
  modify fun s => (s.setPointer .serviceRegistries id .object).mapBridge fun b =>
    { b with serviceRegistries := b.serviceRegistries.set id {} }

/-- The registry of a participant that has servers already. -/
def enableIfServed (id : ParticipantId) : Program Unit := do
  modify fun s => s.mapBridge fun b => { b with currentServers := b.currentServers.set id (b.servers id) }
  let s ← get
  if s.rpc.bridge.servers id ≠ ∅ then
    dereference (.serviceRegistries, id)
    modify fun s => s.mapBridge fun b => b.enableRegistry id
  else return ()

def initNts (db : ParticipantsDatabase) (answers : Answers) : Program Unit := do
  db.getRtpsParticipantsIds.forM fun id => do
    createProxyClientNts db answers id
    createProxyServerNts db answers id
    enableIfServed id
  modify fun s => s.mapBridge fun b => { b with init := true }

/-- The `try` block of `enable`, and whether it came to its end. -/
def tryInit (db : ParticipantsDatabase) (answers : Answers) : Program Bool :=
  tryCatch
    (do
      initNts db answers
      return true)
    fun _ => return false

/-- The pointers of all entries of a map, as a loop over it uses them. -/
def State.entriesOf (s : State) (name : MapName) : List (MapName × ParticipantId) :=
  (s.maps name).keys.map (Prod.mk name)

def initialise (db : ParticipantsDatabase) (answers : Answers) : Program Bool := do
  let s ← get
  if s.rpc.bridge.init then return true else tryInit db answers

/-- `enable` up to the readers, which are switched in steps of their own. -/
def enable (db : ParticipantsDatabase) (answers : Answers) : Program Unit :=
  noexcept do
    let s ← get
    if !s.rpc.bridge.enabled && s.rpc.bridge.serversAvailable then
      let initialised ← initialise db answers
      if initialised then
        modify fun s => s.mapBridge fun b => { b with enabled := true }
        let s ← get
        (s.entriesOf .requestWriters ++ s.entriesOf .replyWriters).forM dereference
        modify fun s => { s with rpc := { s.rpc with control := .enReaders db.rtps.replyThenRequest } }
      else return ()
    else return ()

/-! ### Steps -/

inductive Action where
  | arrive (key : ReaderKey) (c : CacheChange)
  | discovered (id : ParticipantId) (g : GuidPrefix)
  | removed (id : ParticipantId) (g : GuidPrefix)
  | enable (answers : Answers)
  | disable | disableCall | control
  | start (i : Nat)
  | transmit (i : Nat) (o : Outcome)

/-- How the creations for one participant end, as far as the bridge can tell. -/
def Answers.creation (answers : Answers) (id : ParticipantId) : Creation :=
  if answers id .requestWriters ≠ .created ∨ answers id .replyReaders ≠ .created then .clientFails
  else if answers id .replyWriters ≠ .created ∨ answers id .requestReaders ≠ .created then .serverFails
  else .ok

def Action.rpc : Action → RPC.Action
  | .arrive key c => .arrive key c
  | .discovered id g => .discovered id g
  | .removed id g => .removed id g
  | .enable answers => .enable answers.creation
  | .disable => .disable
  | .disableCall => .disableCall
  | .control => .control
  | .start i => .start i
  | .transmit i o => .transmit i o

/-- What `transmit_` dereferences from each of its points to the next. -/
def transmitUses (db : ParticipantsDatabase) (o : Outcome) (s : RPC.State) (key : ReaderKey) :
    TransmitPc → List (MapName × ParticipantId)
  | .fanOut _ data _ (id :: _) =>
    if data.participantReceiver = id && !db.rtps.isRepeater id then [] else [(.serviceRegistries, id)]
  | .send _ _ _ id _ =>
    [(.serviceRegistries, id), (.replyReaders, id), (.requestWriters, id)] ++
      if o.sent.isSome then [(.serviceRegistries, id)] else []
  | .lookup _ =>
    [(.serviceRegistries, (s.reader key).participantId), (.serviceRegistries, (s.reader key).participantId)]
  | .reply _ entry => [(.replyWriters, entry.1)]
  | .erase _ => [(.serviceRegistries, (s.reader key).participantId)]
  | .lock | .test | .take | .fanOut _ _ _ [] | .release => []

/-- What one operation of `enable` or `disable` on the readers dereferences; the
writers are disabled last. -/
def controlUses (s : State) : List (MapName × ParticipantId) :=
  match s.rpc.control with
  | .enReaders (key :: _) | .disReaders (key :: _) => [(.readers key.1, key.2)]
  | .disReaders [] => s.entriesOf .replyWriters ++ s.entriesOf .requestWriters
  | .idle | .enReaders [] | .enReport _ _ | .disWait => []

/-- What an action other than `enable` dereferences. -/
def uses (db : ParticipantsDatabase) (s : State) : Action → List (MapName × ParticipantId)
  | .discovered id _ => if s.rpc.bridge.init && id ∈ db.rtps.ids then [(.serviceRegistries, id)] else []
  | .control => controlUses s
  | .transmit i o =>
    match s.rpc.running[i]? with
    | some t => transmitUses db o s.rpc t.key t.pc
    | none => []
  | .arrive _ _ | .removed _ _ | .enable _ | .disable | .disableCall | .start _ => []

/-- The state after a program, which may have ended the process. -/
def perform (x : Program Unit) (s : State) : State :=
  match x s with
  | some (_, s') => s'
  | none => { s with ended := true }

def step (db : ParticipantsDatabase) (s : State) (a : Action) : Option State :=
  if s.ended then none
  else
    match a with
    | .arrive key c =>
      if (s.maps (.readers key.1)).find key.2 = some .object then some { s with rpc := arrive s.rpc key c } else none
    | .enable answers => if s.rpc.control = .idle then some (perform (enable db answers) s) else none
    | a =>
      match (uses db s a).forM dereference s with
      | none => some { s with ended := true }
      | some (_, s') => (RPC.step db.rtps s'.rpc a.rpc).map fun rpc => { s' with rpc := rpc }

/-- A bridge as its constructor leaves it. -/
def newBridge (db : ParticipantsDatabase) (topic : RPCTopic) : State := { rpc := RPC.create db.rtps topic }

/-! ### Pointers -/

/-- The entry is there and its pointer is not null. -/
def Holds (s : State) (l : MapName × ParticipantId) : Prop := (s.maps l.1).find l.2 = some .object

/-- The maps at any moment, also in the middle of an initialisation. -/
structure Pointers (db : ParticipantsDatabase) (s : State) : Prop where
  keys : ∀ name q, (s.maps name).contains q = true → q ∈ db.rtps.ids
  registries : ∀ q, Holds s (.serviceRegistries, q) ↔ s.rpc.bridge.serviceRegistries.contains q = true
  readers : ∀ key, (s.rpc.reader key).participantId = key.2
  ended : s.ended = false

section Pointers

variable {db : ParticipantsDatabase} {s : State} {name : MapName} {id : ParticipantId}

theorem dereference_of_holds {l : MapName × ParticipantId} (h : Holds s l) :
    dereference l s = some (.ok (), s) := by
  have hfind : (s.maps l.1).find l.2 = some .object := h
  simp [dereference, index, hfind]

theorem forM_dereference {ls : List (MapName × ParticipantId)} (h : ∀ l ∈ ls, Holds s l) :
    ls.forM dereference s = some (.ok (), s) := by
  induction ls with
  | nil => rfl
  | cons l ls ih =>
    change (dereference l >>= fun _ => ls.forM dereference) s = _
    rw [bind_apply, dereference_of_holds (h l List.mem_cons_self)]
    exact ih fun l' hl' => h l' (List.mem_cons_of_mem _ hl')

theorem find_setPointer (s : State) (name : MapName) (id : ParticipantId) (p : Pointer) (n : MapName)
    (q : ParticipantId) :
    ((s.setPointer name id p).maps n).find q = if n = name ∧ q = id then some p else (s.maps n).find q := by
  by_cases hn : n = name
  · subst hn
    simp [State.setPointer, same_iff_eq]
  · simp [State.setPointer, hn]

theorem contains_setPointer {p : Pointer} {n : MapName} {q : ParticipantId}
    (h : ((s.setPointer name id p).maps n).contains q = true) : q = id ∨ (s.maps n).contains q = true := by
  rw [OrdMap.contains, find_setPointer] at h
  split at h
  · rename_i hnq
    exact .inl hnq.2
  · exact .inr h

theorem keys_setPointer (h : Pointers db s) (hid : id ∈ db.rtps.ids) (p : Pointer) (n : MapName) (q : ParticipantId)
    (hq : ((s.setPointer name id p).maps n).contains q = true) : q ∈ db.rtps.ids := by
  rcases contains_setPointer hq with rfl | hq
  · exact hid
  · exact h.keys n q hq

/-- Setting an entry to an object. -/
theorem holds_object (s : State) (name : MapName) (id : ParticipantId) (l : MapName × ParticipantId) :
    Holds (s.setPointer name id .object) l ↔ l = (name, id) ∨ Holds s l := by
  obtain ⟨n, q⟩ := l
  simp only [Holds, find_setPointer, Prod.mk.injEq]
  split <;> simp [*]

/-- A lookup changes no pointer to an object. -/
theorem index_apply (s : State) (name : MapName) (id : ParticipantId) :
    ∃ p s', index name id s = some (.ok p, s') ∧ s'.rpc = s.rpc ∧ s'.ended = s.ended ∧
      (∀ l, Holds s' l ↔ Holds s l) ∧
      ∀ n q, (s'.maps n).contains q = true → q = id ∨ (s.maps n).contains q = true := by
  cases hf : (s.maps name).find id with
  | some p => exact ⟨p, s, by simp [index, hf], rfl, rfl, fun _ => Iff.rfl, fun _ _ => .inr⟩
  | none =>
    refine ⟨.null, s.setPointer name id .null, by simp [index, hf], rfl, rfl, ?_, fun n q => contains_setPointer⟩
    rintro ⟨n, q⟩
    simp only [Holds, find_setPointer]
    split
    · rename_i hnq
      simp [hnq.1, hnq.2, hf]
    · rfl

end Pointers

/-! ### The initialisation -/

/-- A moment of an initialisation that began in `s₀`: the entries of `made` have been
assigned, and `b` is what has become of the bridge. -/
structure Stage (db : ParticipantsDatabase) (s₀ : State) (made : List (MapName × ParticipantId)) (b : RPCBridge)
    (s : State) : Prop where
  pointers : Pointers db s
  rpc : s.rpc = { s₀.rpc with bridge := b, slots := s.rpc.slots }
  made : ∀ l ∈ made, Holds s l

section Initialisation

variable {db : ParticipantsDatabase} {answers : Answers} {s₀ : State} {made : List (MapName × ParticipantId)}
  {b : RPCBridge} {id : ParticipantId} {R : InitializationException → State → Prop}

theorem Stage.bridge {s : State} (h : Stage db s₀ made b s) : s.rpc.bridge = b := by rw [h.rpc]

theorem stage_create {name : MapName} (hname : name ≠ .serviceRegistries) (hid : id ∈ db.rtps.ids)
    (hR : answers id name ≠ .created → ∀ e s, Stage db s₀ made b s → R e s) :
    Triple (Stage db s₀ made b) (create answers name id)
      (fun _ s => answers id name = .created ∧ Stage db s₀ ((name, id) :: made) b s) R := by
  unfold create
  split
  · rename_i ha
    apply triple_modify
    intro s h
    refine ⟨ha, ⟨keys_setPointer h.pointers hid _, ?_, h.pointers.readers, h.pointers.ended⟩, h.rpc, ?_⟩
    · intro q
      rw [holds_object]
      simp only [Prod.mk.injEq, Ne.symm hname, false_and, false_or]
      exact h.pointers.registries q
    · intro l hl
      rw [holds_object]
      rcases List.mem_cons.mp hl with rfl | hl
      · exact .inl rfl
      · exact .inr (h.made l hl)
  · rename_i ha
    exact triple_throw fun s h => hR (by simp [ha]) _ s h
  · -- the lookup before the exception may have left a null pointer
    rename_i ha
    intro s h
    obtain ⟨p, s', hs', hrpc, hended, hholds, hkeys⟩ := index_apply s name id
    refine .inr ⟨{ map := name, id := id }, s', by simp [hs'], hR (by simp [ha]) _ s' ⟨⟨?_, ?_, ?_, ?_⟩, ?_, ?_⟩⟩
    · intro n q hq
      rcases hkeys n q hq with rfl | hq
      · exact hid
      · exact h.pointers.keys n q hq
    · intro q
      rw [hholds, hrpc]
      exact h.pointers.registries q
    · rw [hrpc]
      exact h.pointers.readers
    · rw [hended]
      exact h.pointers.ended
    · rw [hrpc]
      exact h.rpc
    · exact fun l hl => (hholds l).mpr (h.made l hl)

theorem triple_dereference {P : State → Prop} {l : MapName × ParticipantId} (h : ∀ s, P s → Holds s l) :
    Triple P (dereference l) (fun _ => P) R :=
  fun s hs => .inl ⟨(), s, dereference_of_holds (h s hs), hs⟩

theorem stage_createSlot (side : Side) (hmade : (.readers side, id) ∈ made) :
    Triple (Stage db s₀ made b) (createSlot db side id) (fun _ => Stage db s₀ made b) R := by
  refine triple_bind (triple_dereference fun s h => h.made _ hmade) fun _ => triple_modify fun s h => ?_
  refine ⟨⟨h.pointers.keys, h.pointers.registries, ?_, h.pointers.ended⟩, ?_, h.made⟩
  · intro key
    by_cases hk : key = (side, id)
    · simp [State.setSlot, RPC.State.reader, createReader, hk]
    · simpa [State.setSlot, RPC.State.reader, hk] using h.pointers.readers key
  · simp only [State.setSlot]
    rw [h.rpc]

theorem stage_registry (hid : id ∈ db.rtps.ids) {s : State} (h : Stage db s₀ made b s) :
    Stage db s₀ ((.serviceRegistries, id) :: made) { b with serviceRegistries := b.serviceRegistries.set id {} }
      ((s.setPointer .serviceRegistries id .object).mapBridge fun b =>
        { b with serviceRegistries := b.serviceRegistries.set id {} }) := by
  refine ⟨⟨keys_setPointer h.pointers hid _, ?_, h.pointers.readers, h.pointers.ended⟩, ?_, ?_⟩
  · intro q
    calc
      Holds (s.setPointer .serviceRegistries id .object) (.serviceRegistries, q)
        ↔ q = id ∨ Holds s (.serviceRegistries, q) := by simp [holds_object]
      _ ↔ q = id ∨ s.rpc.bridge.serviceRegistries.contains q = true := by rw [h.pointers.registries]
      _ ↔ (s.rpc.bridge.serviceRegistries.set id {}).contains q = true := by
        rw [OrdMap.contains_set, Bool.or_eq_true, same_iff_eq]
  · simp only [State.mapBridge, State.setPointer]
    rw [h.rpc]
  · intro l hl
    apply (holds_object s .serviceRegistries id l).mpr
    rcases List.mem_cons.mp hl with rfl | hl
    · exact .inl rfl
    · exact .inr (h.made l hl)

/-- A change of the bridge that creates no registry. -/
theorem stage_mapBridge {f : RPCBridge → RPCBridge} {s : State} (h : Stage db s₀ made b s)
    (hf : ∀ q, (f b).serviceRegistries.contains q = b.serviceRegistries.contains q) :
    Stage db s₀ made (f b) (s.mapBridge f) := by
  refine ⟨⟨h.pointers.keys, ?_, h.pointers.readers, h.pointers.ended⟩, ?_, h.made⟩
  · intro q
    have hq : (f s.rpc.bridge).serviceRegistries.contains q = s.rpc.bridge.serviceRegistries.contains q := by
      rw [h.bridge]
      exact hf q
    rw [State.mapBridge, hq]
    exact h.pointers.registries q
  · simp only [State.mapBridge]
    rw [h.rpc]

/-- The bridge once the endpoints of a participant have been created. -/
def initialised (b : RPCBridge) (id : ParticipantId) : RPCBridge :=
  { b with
    currentServers := b.currentServers.set id (b.servers id)
    serviceRegistries := b.serviceRegistries.set id { enabled := b.servers id ≠ ∅ } }

theorem stage_enableIfServed (hmade : (.serviceRegistries, id) ∈ made) :
    Triple (Stage db s₀ made { b with serviceRegistries := b.serviceRegistries.set id {} }) (enableIfServed id)
      (fun _ => Stage db s₀ made (initialised b id)) R := by
  let b₁ : RPCBridge := { b with
    currentServers := b.currentServers.set id (b.servers id), serviceRegistries := b.serviceRegistries.set id {} }
  have hserved : b₁.servers id = b.servers id := RPCBridge.servers_set_self b id id _
  refine triple_bind (Q := fun _ => Stage db s₀ made b₁) ?_ fun _ => triple_get fun s₁ h₁ => ?_
  · exact triple_modify fun s h => stage_mapBridge
      (f := fun b => { b with currentServers := b.currentServers.set id (b.servers id) }) h fun _ => rfl
  · rw [h₁.bridge, hserved]
    split
    · rename_i hne
      have hon : b₁.enableRegistry id = initialised b id := by
        simp [RPCBridge.enableRegistry, RPCBridge.mapRegistry, b₁, initialised, OrdMap.set_set, hne]
      refine triple_bind (triple_dereference (l := (.serviceRegistries, id)) ?_) fun _ => triple_modify ?_
      · exact fun s hs => hs ▸ h₁.made _ hmade
      · intro s hs
        rw [hs, ← hon]
        exact stage_mapBridge (f := fun b => b.enableRegistry id) h₁ fun q => RPCBridge.contains_mapRegistry b₁ id q _
    · rename_i hne
      have hoff : b₁ = initialised b id := by
        simp at hne
        simp [b₁, initialised, hne]
      exact triple_pure fun s hs => by rw [hs, ← hoff]; exact h₁

/-- The entries of one participant. -/
def entriesFor (id : ParticipantId) : List (MapName × ParticipantId) :=
  [.requestReaders, .replyWriters, .serviceRegistries, .replyReaders, .requestWriters].map fun name => (name, id)

/-- Where an exception has ended the initialisation. -/
def Failed (db : ParticipantsDatabase) (answers : Answers) (s₀ : State) (s : State) : Prop :=
  ∃ b, Stage db s₀ [] b s ∧ RPCBridge.initNts answers.creation db.rtps.ids s₀.rpc.bridge = (b, false)

theorem Stage.forget {s : State} (h : Stage db s₀ made b s) : Stage db s₀ [] b s :=
  ⟨h.pointers, h.rpc, fun _ hl => absurd hl List.not_mem_nil⟩

/-- The proxy client of a participant, with the exceptions at its two creations. -/
theorem stage_client (hid : id ∈ db.rtps.ids)
    (hR : answers.creation id = .clientFails → ∀ made e s, Stage db s₀ made b s → R e s) :
    Triple (Stage db s₀ made b) (createProxyClientNts db answers id)
      (fun _ s => (answers id .requestWriters = .created ∧ answers id .replyReaders = .created) ∧
        Stage db s₀ ((.serviceRegistries, id) :: (.replyReaders, id) :: (.requestWriters, id) :: made)
          { b with serviceRegistries := b.serviceRegistries.set id {} } s) R := by
  refine triple_bind (stage_create (by decide) hid fun ha => hR (if_pos (.inl ha)) _) fun _ =>
    triple_fact fun hwriter => ?_
  refine triple_bind (stage_create (by decide) hid fun ha => hR (if_pos (.inr ha)) _) fun _ =>
    triple_fact fun hreader => ?_
  refine triple_bind (stage_createSlot .reply List.mem_cons_self) fun _ => triple_modify fun s h => ?_
  exact ⟨⟨hwriter, hreader⟩, stage_registry hid h⟩

theorem stage_server (hid : id ∈ db.rtps.ids)
    (hclient : answers id .requestWriters = .created ∧ answers id .replyReaders = .created)
    (hR : answers.creation id = .serverFails → ∀ made e s, Stage db s₀ made b s → R e s) :
    Triple (Stage db s₀ made b) (createProxyServerNts db answers id)
      (fun _ s => answers.creation id = .ok ∧
        Stage db s₀ ((.requestReaders, id) :: (.replyWriters, id) :: made) b s) R := by
  have hfails : answers id .replyWriters ≠ .created ∨ answers id .requestReaders ≠ .created →
      answers.creation id = .serverFails := by
    intro ha
    simp [Answers.creation, hclient, ha]
  refine triple_bind (stage_create (by decide) hid fun ha => hR (hfails (.inl ha)) _) fun _ =>
    triple_fact fun hwriter => ?_
  refine triple_bind (stage_create (by decide) hid fun ha => hR (hfails (.inr ha)) _) fun _ =>
    triple_fact fun hreader => ?_
  refine triple_weaken (stage_createSlot .request List.mem_cons_self) (fun s h => h) fun _ s h => ⟨?_, h⟩
  simp [Answers.creation, hclient, hwriter, hreader]

/-- The endpoints of one participant. -/
theorem stage_participant (hid : id ∈ db.rtps.ids) {rest : List ParticipantId}
    (hb : RPCBridge.initNts answers.creation (id :: rest) b =
      RPCBridge.initNts answers.creation db.rtps.ids s₀.rpc.bridge) :
    Triple (Stage db s₀ made b)
      (do
        createProxyClientNts db answers id
        createProxyServerNts db answers id
        enableIfServed id)
      (fun _ s => answers.creation id = .ok ∧ Stage db s₀ (entriesFor id ++ made) (initialised b id) s)
      fun _ => Failed db answers s₀ := by
  refine triple_bind (stage_client hid fun hc made e s h => ?_) fun _ => triple_fact fun hclient => ?_
  · exact ⟨b, h.forget, by rw [← hb, RPCBridge.initNts, hc]⟩
  · refine triple_bind (stage_server hid hclient fun hc made e s h => ?_) fun _ => triple_fact fun hok => ?_
    · exact ⟨_, h.forget, by rw [← hb, RPCBridge.initNts, hc]⟩
    · refine triple_weaken (stage_enableIfServed (by simp)) (fun s h => h) fun _ s h => ⟨hok, h⟩

/-- The initialisation does to the bridge what `RPCBridge.initNts` says, and if it comes
to its end every RTPS participant has its entry in every map. -/
theorem initNts_spec (h : Pointers db s₀) :
    Triple (fun s => s = s₀) (initNts db answers)
      (fun _ s => ∃ b, Stage db s₀ (db.rtps.ids.flatMap entriesFor) b s ∧
        RPCBridge.initNts answers.creation db.rtps.ids s₀.rpc.bridge = (b, true))
      fun _ => Failed db answers s₀ := by
  -- the participants that are still to be initialised carry the bridge to the same end
  let I : List ParticipantId → State → Prop := fun done s => ∃ b, Stage db s₀ (done.flatMap entriesFor) b s ∧
    ∀ rest, db.rtps.ids = done ++ rest →
      RPCBridge.initNts answers.creation rest b =
        RPCBridge.initNts answers.creation db.rtps.ids s₀.rpc.bridge
  have hloop := triple_forM (I := I) (l := db.getRtpsParticipantsIds)
    (R := fun (_ : InitializationException) => Failed db answers s₀) fun done id rest hl => by
      rintro s ⟨b, hs, hb⟩
      have hid : id ∈ db.rtps.ids := by
        rw [show db.rtps.ids = done ++ id :: rest from hl]
        simp
      refine triple_weaken (stage_participant hid (hb _ hl)) (fun s h => h) ?_ s hs
      rintro - s' ⟨hok, h'⟩
      refine ⟨initialised b id, ⟨h'.pointers, h'.rpc, ?_⟩, fun rest' hrest => ?_⟩
      · intro l hl'
        apply h'.made
        simp only [List.flatMap_append, List.flatMap_cons, List.flatMap_nil, List.append_nil, List.mem_append] at hl' ⊢
        exact hl'.symm
      · rw [← hb (id :: rest') (by rw [hrest, List.append_assoc]; rfl)]
        simp only [RPCBridge.initNts, hok]
        rfl
  refine triple_bind (triple_weaken hloop ?_ fun _ _ hs => hs) fun _ => triple_modify ?_
  · rintro s rfl
    exact ⟨s.rpc.bridge, ⟨h, rfl, fun _ hl => absurd hl List.not_mem_nil⟩, fun rest hrest => by rw [hrest]; rfl⟩
  · rintro s ⟨b, hs, hb⟩
    refine ⟨{ b with init := true }, stage_mapBridge (f := fun b => { b with init := true }) hs fun _ => rfl, ?_⟩
    rw [← hb [] (List.append_nil _).symm]
    rfl

/-- Every RTPS participant has its entry in every map. -/
def Complete (db : ParticipantsDatabase) (s : State) : Prop := ∀ name, ∀ q ∈ db.rtps.ids, Holds s (name, q)

theorem complete_of_made {s : State} (h : ∀ l ∈ db.rtps.ids.flatMap entriesFor, Holds s l) : Complete db s := by
  intro name q hq
  apply h
  refine List.mem_flatMap.mpr ⟨q, hq, ?_⟩
  cases name <;> simp [entriesFor]

/-- What the loops over whole maps use. -/
theorem entriesOf_holds {s : State} (h : Pointers db s) (hc : Complete db s) (names : List MapName) :
    ∀ l ∈ names.flatMap s.entriesOf, Holds s l := by
  intro l hl
  obtain ⟨name, -, hl⟩ := List.mem_flatMap.mp hl
  obtain ⟨q, hq, rfl⟩ := List.mem_map.mp hl
  exact hc name q (h.keys name q (OrdMap.contains_of_mem_keys hq))

/-- How `initialise` can end on a bridge that is to be enabled. -/
structure Initialised (db : ParticipantsDatabase) (answers : Answers) (s₀ : State) (ok : Bool) (b : RPCBridge)
    (s : State) : Prop where
  stage : Stage db s₀ [] b s
  complete : b.init = true → Complete db s
  init : ok = true → b.init = true
  enabled : b.enabled = s₀.rpc.bridge.enabled
  bridge : (if s₀.rpc.bridge.init then (s₀.rpc.bridge, true)
    else RPCBridge.initNts answers.creation db.rtps.ids s₀.rpc.bridge) = (b, ok)

theorem initialise_spec (h : Pointers db s₀) (hc : s₀.rpc.bridge.init = true → Complete db s₀) :
    Triple (fun s => s = s₀) (initialise db answers) (fun ok s => ∃ b, Initialised db answers s₀ ok b s) R := by
  apply triple_get
  rintro s rfl
  split
  · rename_i hi
    apply triple_pure
    rintro s' rfl
    exact ⟨s'.rpc.bridge, ⟨h, rfl, fun _ hl => absurd hl List.not_mem_nil⟩, hc, fun _ => hi, rfl, if_pos hi⟩
  · rename_i hi
    have hon := RPCBridge.initNts_enabled answers.creation db.rtps.ids s.rpc.bridge
    have hinit := RPCBridge.initNts_init answers.creation db.rtps.ids s.rpc.bridge
    apply triple_tryCatch (R := fun _ => Failed db answers s)
    · refine triple_bind (initNts_spec h) fun _ => triple_pure ?_
      rintro s' ⟨b, hs', hb⟩
      rw [hb] at hon hinit
      exact ⟨b, hs'.forget, fun _ => complete_of_made hs'.made, fun _ => by simpa using hinit, hon,
        by rw [if_neg hi, hb]⟩
    · intro e
      apply triple_pure
      rintro s' ⟨b, hs', hb⟩
      rw [hb] at hon hinit
      have hoff : b.init = false := by simpa [hi] using hinit
      exact ⟨b, hs', fun hb' => by simp [hoff] at hb', nofun, hon, by rw [if_neg hi, hb]⟩

/-- `enable` dereferences no null pointer and throws nothing. It does to the bridge
and to the thread that holds `mutex_` what the step of that name says. -/
theorem enable_spec (h : Pointers db s₀) (hc : s₀.rpc.bridge.init = true → Complete db s₀)
    (hidle : s₀.rpc.control = .idle) :
    Triple (fun s => s = s₀) (enable db answers)
      (fun _ s => Pointers db s ∧ (s.rpc.bridge.init = true → Complete db s) ∧
        RPC.step db.rtps s₀.rpc (.enable answers.creation) = some { s.rpc with slots := s₀.rpc.slots }) R := by
  apply triple_noexcept
  apply triple_get
  rintro s rfl
  split
  · rename_i hgo
    have hoff : s.rpc.bridge.enabled = false := by simp at hgo; exact hgo.1
    refine triple_bind (initialise_spec h hc) fun ok => ?_
    rintro s₁ ⟨b, h₁⟩
    have hbase : s.rpc.bridge.enable answers.creation db.rtps.ids = if ok then { b with enabled := true } else b := by
      have hb := h₁.bridge
      unfold RPCBridge.enable
      rw [if_pos hgo]
      split at hb
      · rename_i hi
        obtain ⟨rfl, rfl⟩ := Prod.mk.inj hb
        rw [if_pos hi, if_pos rfl]
      · rename_i hi
        rw [if_neg hi, hb]
        cases ok <;> rfl
    cases ok with
    | true =>
      have hs₂ := stage_mapBridge (f := fun b => { b with enabled := true }) h₁.stage fun _ => rfl
      have hcomplete : Complete db (s₁.mapBridge fun b => { b with enabled := true }) := h₁.complete (h₁.init rfl)
      have hwriters := forM_dereference (entriesOf_holds hs₂.pointers hcomplete [.requestWriters, .replyWriters])
      refine .inl ⟨(), { s₁.mapBridge fun b => { b with enabled := true } with
        rpc := { (s₁.mapBridge fun b => { b with enabled := true }).rpc with
          control := .enReaders db.rtps.replyThenRequest } }, ?_, ?_, fun _ => hcomplete, ?_⟩
      · simp at hwriters
        simp [hwriters]
      · exact ⟨hs₂.pointers.keys, hs₂.pointers.registries, hs₂.pointers.readers, hs₂.pointers.ended⟩
      · simp only [State.mapBridge]
        rw [h₁.stage.rpc]
        simp [RPC.step, hidle, hbase, hoff]
    | false =>
      have hb : b.enabled = false := h₁.enabled.trans hoff
      refine .inl ⟨(), s₁, rfl, h₁.stage.pointers, fun hi => h₁.complete (h₁.stage.bridge ▸ hi), ?_⟩
      rw [h₁.stage.rpc]
      simp [RPC.step, hidle, hbase, hb]
  · rename_i hgo
    apply triple_pure
    rintro s' rfl
    have hbase : s'.rpc.bridge.enable answers.creation db.rtps.ids = s'.rpc.bridge := if_neg hgo
    refine ⟨h, hc, ?_⟩
    simp [RPC.step, hidle, hbase]

end Initialisation

/-! ### Runs -/

structure Inv (db : ParticipantsDatabase) (s : State) : Prop where
  pointers : Pointers db s
  complete : s.rpc.bridge.init = true → Complete db s
  reached : Reached db.rtps s.rpc

section Runs

variable {db : ParticipantsDatabase} {s s' : State}

theorem inv_newBridge (db : ParticipantsDatabase) (topic : RPCTopic) : Inv db (newBridge db topic) := by
  refine ⟨⟨?_, ?_, (reached_create db.rtps topic).readers, rfl⟩, nofun, reached_create db.rtps topic⟩
  · simp [newBridge, OrdMap.contains]
  · simp [newBridge, Holds, OrdMap.contains, RPC.create]

/-- What a running task dereferences is there. -/
theorem transmitUses_hold (h : Inv db s) {t : Task} (ht : t ∈ s.rpc.running) (o : Outcome) :
    ∀ l ∈ transmitUses db o s.rpc t.key t.pc, Holds s l := by
  obtain ⟨key, pc⟩ := t
  obtain ⟨hinit, hid, hpc⟩ := h.reached.running _ ht
  have hc := h.complete hinit
  have hreader : (s.rpc.reader key).participantId ∈ db.rtps.ids := (h.reached.readers key).symm ▸ hid
  intro l hl
  cases pc with
  | lock | test | take | release => exact absurd hl List.not_mem_nil
  | fanOut n data identity rest =>
    cases rest with
    | nil => exact absurd hl List.not_mem_nil
    | cons id rest =>
      simp only [transmitUses] at hl
      split at hl
      · exact absurd hl List.not_mem_nil
      · rw [List.mem_singleton.mp hl]
        exact hc _ id (hpc.2 id List.mem_cons_self)
  | send n data identity id rest =>
    have hl : l.2 = id := by
      simp only [transmitUses] at hl
      simp only [List.mem_append, List.mem_cons, List.not_mem_nil, or_false] at hl
      rcases hl with (rfl | rfl | rfl) | hl
      · rfl
      · rfl
      · rfl
      · split at hl
        · rw [List.mem_singleton.mp hl]
        · exact absurd hl List.not_mem_nil
    exact hc l.1 l.2 (hl ▸ hpc.2.1)
  | lookup data =>
    have hl : l = (.serviceRegistries, (s.rpc.reader key).participantId) := by simpa [transmitUses] using hl
    rw [hl]
    exact hc _ _ hreader
  | reply data entry =>
    rw [List.mem_singleton.mp hl]
    exact hc _ _ hpc
  | erase idx =>
    rw [List.mem_singleton.mp hl]
    exact hc _ _ hreader

/-- The readers that are switched are those of the maps. -/
theorem controlUses_hold (h : Inv db s) : ∀ l ∈ controlUses s, Holds s l := by
  have hpending := h.reached.pending
  have hinit := h.reached.control
  intro l hl
  unfold controlUses at hl
  split at hl
  · rename_i key rest hc
    rw [hc] at hpending hinit
    rw [List.mem_singleton.mp hl]
    exact h.complete (hinit nofun) _ _ (hpending key List.mem_cons_self)
  · rename_i key rest hc
    rw [hc] at hpending hinit
    rw [List.mem_singleton.mp hl]
    exact h.complete (hinit nofun) _ _ (hpending key List.mem_cons_self)
  · rename_i hc
    rw [hc] at hinit
    exact entriesOf_holds h.pointers (h.complete (hinit nofun)) [.replyWriters, .requestWriters] l (by simpa using hl)
  all_goals exact absurd hl List.not_mem_nil

theorem uses_hold (h : Inv db s) (a : Action) : ∀ l ∈ uses db s a, Holds s l := by
  intro l hl
  cases a with
  | discovered id g =>
    simp only [uses] at hl
    split at hl
    · rename_i hgo
      simp only [Bool.and_eq_true, decide_eq_true_eq] at hgo
      rw [List.mem_singleton.mp hl]
      exact h.complete hgo.1 _ id hgo.2
    · exact absurd hl List.not_mem_nil
  | control => exact controlUses_hold h l hl
  | transmit i o =>
    simp only [uses] at hl
    split at hl
    · rename_i t ht
      exact transmitUses_hold h (Threads.mem_of_at ht) o l hl
    · exact absurd hl List.not_mem_nil
  | arrive | removed | enable | disable | disableCall | start => exact absurd hl List.not_mem_nil

/-- A step of the bridge that fills no map. -/
theorem inv_rpc (h : Inv db s) {rpc : RPC.State} (hr : Reached db.rtps rpc)
    (hinit : rpc.bridge.init = s.rpc.bridge.init)
    (hreg : ∀ q, rpc.bridge.serviceRegistries.contains q = s.rpc.bridge.serviceRegistries.contains q) :
    Inv db { s with rpc := rpc } := by
  refine ⟨⟨h.pointers.keys, fun q => ?_, hr.readers, h.pointers.ended⟩, fun hi => ?_, hr⟩
  · simp only [hreg]
    exact h.pointers.registries q
  · exact h.complete (hinit ▸ hi)

theorem inv_enable (h : Inv db s) (answers : Answers) (hidle : s.rpc.control = .idle) :
    Inv db (perform (enable db answers) s) := by
  rcases enable_spec (R := fun _ _ => False) h.pointers h.complete hidle s rfl with
    ⟨_, s', hs', hp, hc, hstep⟩ | ⟨_, _, _, hfalse⟩
  · have hr := reached_slots (reached_step h.reached hstep) hp.readers
    have heq : perform (enable db answers) s = s' := by
      unfold perform
      rw [hs']
    rw [heq]
    exact ⟨hp, hc, hr⟩
  · exact hfalse.elim

theorem inv_step {a : Action} (h : Inv db s) (hs : step db s a = some s') : Inv db s' := by
  have hrest : ∀ rpc, RPC.step db.rtps s.rpc a.rpc = some rpc → (∀ answers, a ≠ .enable answers) →
      Inv db { s with rpc := rpc } := by
    intro rpc hrpc ha
    obtain ⟨hinit, hreg⟩ := bridge_step hrpc fun created hc => by
      cases a <;> simp [Action.rpc] at hc
      exact ha _ rfl
    exact inv_rpc h (reached_step h.reached hrpc) hinit hreg
  have huses := forM_dereference (uses_hold h a)
  have hgo : ¬ s.ended = true := by simp [h.pointers.ended]
  unfold step at hs
  rw [if_neg hgo] at hs
  cases a with
  | arrive key c =>
    simp only at hs
    split at hs
    · rename_i hholds
      cases hs
      have hid := h.pointers.keys _ key.2 (by rw [OrdMap.contains, hholds]; rfl)
      have hframe := (arrive_frame s.rpc key c).2
      exact inv_rpc h (reached_arrive h.reached c hid) (by rw [hframe]) fun q => by rw [hframe]
    · cases hs
  | enable answers =>
    simp only at hs
    split at hs
    · rename_i hidle
      cases hs
      exact inv_enable h answers hidle
    · cases hs
  | discovered | removed | disable | disableCall | control | start | transmit =>
    simp only [huses] at hs
    obtain ⟨rpc, hrpc, rfl⟩ := Option.map_eq_some_iff.mp hs
    apply hrest rpc hrpc
    intro answers ha
    cases ha

/-- No run comes to a null pointer. Once the bridge is initialised every map has exactly
the RTPS participants as keys, before that no task is queued or runs, and a
registry gives back RTPS participants only. -/
theorem lookups_never_miss (db : ParticipantsDatabase) (topic : RPCTopic) (as : List Action) (s : State)
    (hr : run (step db) (newBridge db topic) as = some s) :
    s.ended = false ∧
      (s.rpc.bridge.init = true → ∀ name q,
        (q ∈ (s.maps name).keys ↔ q ∈ db.getRtpsParticipantsIds) ∧
        (q ∈ db.getRtpsParticipantsIds → (s.maps name).find q = some .object)) ∧
      (s.rpc.bridge.init = true → ∀ q,
        q ∈ s.rpc.bridge.serviceRegistries.keys ↔ q ∈ db.getRtpsParticipantsIds) ∧
      (s.rpc.bridge.init = false → s.rpc.queued = [] ∧ s.rpc.running = []) ∧
      ∀ q r idx, s.rpc.bridge.serviceRegistries.find q = some r → (r.get idx).1.isValid = true →
        (r.get idx).1 ∈ db.getRtpsParticipantsIds := by
  have h : Inv db s := run_invariant (fun _ _ _ => inv_step) (inv_newBridge db topic) hr
  refine ⟨h.pointers.ended, ?_, ?_, ?_, ?_⟩
  · intro hi name q
    refine ⟨⟨fun hq => h.pointers.keys name q (OrdMap.contains_of_mem_keys hq), fun hq => ?_⟩, h.complete hi name q⟩
    exact OrdMap.mem_keys_of_find (h.complete hi name q hq)
  · intro hi q
    refine ⟨fun hq => h.reached.registries q (OrdMap.contains_of_mem_keys hq), fun hq => ?_⟩
    have hreg := (h.pointers.registries q).mp (h.complete hi .serviceRegistries q hq)
    obtain ⟨r, hr⟩ := Option.isSome_iff_exists.mp hreg
    exact OrdMap.mem_keys_of_find hr
  · intro hi
    refine ⟨List.eq_nil_iff_forall_not_mem.mpr fun key hk => ?_, List.eq_nil_iff_forall_not_mem.mpr fun t ht => ?_⟩
    · have := (h.reached.queued key hk).1
      simp [hi] at this
    · have := (h.reached.running t ht).1
      simp [hi] at this
  · intro q r idx hr hv
    apply h.reached.entries q idx
    simp only [RPCBridge.entry, hr, Option.bind_some]
    exact ServiceRegistry.find_of_get hv

end Runs

/-- Two RTPS participants and one of another kind. -/
def threeParticipants : ParticipantsDatabase where
  participants := ((OrdMap.empty.set ⟨"a"⟩ { kind := .simpleRtps }).set ⟨"b"⟩ { kind := .wanInitialPeers }).set ⟨"e"⟩
    { kind := .echo }
  guid := twoParticipants.guid

/-- The reply reader of `b` is refused at the first attempt, when a sample is there for the
request reader of `a`. After the second attempt a request is forwarded and answered. -/
def initialisedTwice : List Action :=
  List.flatten
    [[.discovered ⟨"b"⟩ 9,
        .enable fun id name => if id = ⟨"b"⟩ ∧ name = .replyReaders then .refused true else .created,
        .arrive (.request, ⟨"a"⟩) (request 1), .enable fun _ _ => .created],
      List.replicate 9 .control, [.arrive (.request, ⟨"a"⟩) (request 2), .start 2],
      List.replicate 5 (.transmit 0 {}), [.transmit 0 { sent := some 7 }],
      [.arrive (.reply, ⟨"b"⟩) (answer 7), .start 1], List.replicate 5 (.transmit 1 {})]

theorem lookups_initialisedTwice :
    ∃ s, run (step threeParticipants) (newBridge threeParticipants addTwoIntsService) initialisedTwice = some s ∧
      s.rpc.log.length = 3 ∧ s.ended = false ∧
      ∀ name q, q ∈ (s.maps name).keys ↔ q ∈ [⟨"a"⟩, ⟨"b"⟩] := by
  have hrun : ((run (step threeParticipants) (newBridge threeParticipants addTwoIntsService) initialisedTwice).any
      fun s => s.rpc.log.length = 3 && s.rpc.bridge.init) = true := by decide +kernel
  obtain ⟨s, hrun, hs⟩ := (Option.any_eq_true _ _).mp hrun
  obtain ⟨hlog, hinit⟩ : s.rpc.log.length = 3 ∧ s.rpc.bridge.init = true := by simpa using hs
  have h := lookups_never_miss threeParticipants addTwoIntsService initialisedTwice s hrun
  exact ⟨s, hrun, hlog, h.1, fun name q => (h.2.1 hinit name q).1⟩

end DDSRouter.RPC.Lookups
