import DDSRouter.BridgeCreation
import DDSRouter.Lib.Runs
import DDSRouter.RouterParticipants

/-!
# The life of endpoints

A bridge creates its endpoints in the participants and deletes them when it is
destroyed. Between the two it knows them by pointers, and a participant looks for the
pointer when it deletes. The bridge of a service may get some of its endpoints only
and try again later; the bridge of a topic gives up in its constructor, and what it has
created by then it does not delete.

A `BaseParticipant` keeps what it has created, and which of its creations succeed is
open. A `BlankParticipant` or an `EchoParticipant` keeps nothing: it always creates, and
there is nothing for it to delete.
-/
namespace DDSRouter

/-- The kinds of endpoints of a participant. -/
inductive EndpointSide where
  | writer | reader
  deriving DecidableEq, Repr

namespace BaseParticipant

variable (p : BaseParticipant Nat Nat)

def endpoints : EndpointSide → OrdMap DdsTopic Nat
  | .writer => p.writers
  | .reader => p.readers

/-- `create_writer` or `create_reader`. -/
def create (side : EndpointSide) (topic : DdsTopic) (answer : Option Nat) : Option (BaseParticipant Nat Nat) :=
  match side with
  | .writer => p.createWriter topic answer
  | .reader => p.createReader topic answer

def deleteWriter (writer : Nat) : Option (BaseParticipant Nat Nat) :=
  (p.writers.entries.find? fun e => e.2 = writer).map fun e => { p with writers := p.writers.erase e.1 }

def deleteReader (reader : Nat) : Option (BaseParticipant Nat Nat) :=
  (p.readers.entries.find? fun e => e.2 = reader).map fun e => { p with readers := p.readers.erase e.1 }

/-- `none` where the loop finds no such endpoint. -/
def delete (side : EndpointSide) (pointer : Nat) : Option (BaseParticipant Nat Nat) :=
  match side with
  | .writer => p.deleteWriter pointer
  | .reader => p.deleteReader pointer

end BaseParticipant

namespace EndpointLifecycle

open WeakOrder Runs
open BridgeCreation (Participants)

/-- The classes of participants that are `BaseParticipant`s, by their kinds. -/
def keepsEndpoints : Configuration.ParticipantKind → Bool
  | .blank | .echo => false
  | .invalid | .dummy | .simpleRtps | .localDiscoveryServer | .wanDiscoveryServer | .wanInitialPeers => true

variable (db : Configuration.Participants)

def registers (id : ParticipantId) : Bool := (db.find id).any fun p => keepsEndpoints p.kind

/-- An endpoint with the participant that it was created in. -/
structure Slot where
  side : EndpointSide
  id : ParticipantId
  pointer : Nat
  deriving DecidableEq, Repr

/-- What the participants keep, which is nothing for those that do not register. A new
endpoint gets a pointer that was never used before. `deleted` are the endpoints that a
participant was asked to delete, and that it had if it keeps them. -/
structure Store where
  participants : Participants Nat Nat := fun _ => {}
  next : Nat := 0
  deleted : List Slot := []

/-- Which creations succeed: `create_writer_` and `create_reader_` of the participants. -/
abbrev Answers := EndpointSide → ParticipantId → DdsTopic → Bool

def create (answers : Answers) (s : Store) (side : EndpointSide) (id : ParticipantId) (topic : DdsTopic) :
    Option (Nat × Store) :=
  if registers db id then
    ((s.participants id).create side topic (if answers side id topic then some s.next else none)).map fun p =>
      (s.next, { s with participants := Function.update s.participants id p, next := s.next + 1 })
  else some (s.next, { s with next := s.next + 1 })

def delete (s : Store) (side : EndpointSide) (id : ParticipantId) (pointer : Nat) : Store :=
  if registers db id then
    match (s.participants id).delete side pointer with
    | some p =>
      { s with participants := Function.update s.participants id p, deleted := ⟨side, id, pointer⟩ :: s.deleted }
    | none => s
  else { s with deleted := ⟨side, id, pointer⟩ :: s.deleted }

/-! ### The endpoints of a bridge -/

section Holder

-- `π` are the names of the maps that a class of bridges keeps its endpoints in
variable {π : Type} [DecidableEq π]

abbrev Maps (π : Type) := π → OrdMap ParticipantId Nat

/-- The side of each map, and the topic that its endpoints are created for. -/
structure Layout (π : Type) where
  side : π → EndpointSide
  topic : π → DdsTopic

/-- One creation after another, up to the first that throws, and whether none did. -/
def createAll (answers : Answers) (l : Layout π) : List (π × ParticipantId) → Maps π → Store → Maps π × Store × Bool
  | [], m, s => (m, s, true)
  | (x, id) :: rest, m, s =>
    match create db answers s (l.side x) id (l.topic x) with
    | none => (m, s, false)
    | some (pointer, s) => createAll answers l rest (Function.update m x ((m x).set id pointer)) s

/-- One deletion after another, of what there is. -/
def deleteAll (l : Layout π) : List (π × ParticipantId) → Maps π → Store → Maps π × Store
  | [], m, s => (m, s)
  | (x, id) :: rest, m, s =>
    match (m x).find id with
    | none => deleteAll l rest m s
    | some pointer =>
      deleteAll l rest (Function.update m x ((m x).erase id)) (delete db s (l.side x) id pointer)

def mapSlots (side : EndpointSide) (m : OrdMap ParticipantId Nat) : List Slot :=
  m.entries.map fun e => ⟨side, e.1, e.2⟩

def slots (l : Layout π) (names : List π) (m : Maps π) : List Slot := names.flatMap fun x => mapSlots (l.side x) (m x)

end Holder

/-- The maps of `DDSBridge`. -/
inductive TopicMap where
  | writers | readers
  deriving DecidableEq, Repr

def TopicMap.all : List TopicMap := [.writers, .readers]

def topicLayout (t : DdsTopic) : Layout TopicMap where
  side
    | .writers => .writer
    | .readers => .reader
  topic _ := t

/-- The maps of `RPCBridge`. -/
inductive ServiceMap where
  | requestWriters | replyWriters | requestReaders | replyReaders
  deriving DecidableEq, Repr

def ServiceMap.all : List ServiceMap := [.requestWriters, .replyWriters, .requestReaders, .replyReaders]

def serviceLayout (t : RPCTopic) : Layout ServiceMap where
  side
    | .requestWriters | .replyWriters => .writer
    | .requestReaders | .replyReaders => .reader
  topic
    | .requestWriters | .requestReaders => t.requestTopic
    | .replyWriters | .replyReaders => t.replyTopic

/-- `DDSBridge::DDSBridge` and `~DDSBridge` go through the participants in this order. -/
def topicOrder (ids : List ParticipantId) : List (TopicMap × ParticipantId) :=
  ids.flatMap fun id => [(.writers, id), (.readers, id)]

/-- `RPCBridge::init_nts_`: in each participant first the proxy client, then the proxy server. -/
def serviceOrder (ids : List ParticipantId) : List (ServiceMap × ParticipantId) :=
  ids.flatMap fun id => [(.requestWriters, id), (.replyReaders, id), (.replyWriters, id), (.requestReaders, id)]

/-- `~RPCBridge`. -/
def serviceDeletionOrder (ids : List ParticipantId) : List (ServiceMap × ParticipantId) :=
  ids.flatMap fun id => [(.requestWriters, id), (.replyWriters, id), (.requestReaders, id), (.replyReaders, id)]

/-! ### The router -/

structure TopicBridge where
  topic : DdsTopic
  maps : Maps TopicMap

structure ServiceBridge where
  topic : RPCTopic
  init : Bool := false
  maps : Maps ServiceMap := fun _ => OrdMap.empty

/-- `lost` are the endpoints of bridges whose constructor has thrown. -/
structure State where
  store : Store := {}
  bridges : OrdMap DdsTopic TopicBridge := OrdMap.empty
  services : OrdMap RPCTopic ServiceBridge := OrdMap.empty
  lost : List Slot := []

/-- A topic is activated, a service is discovered, a service comes to be enabled. -/
inductive Action where
  | activateTopic (t : DdsTopic) (answers : Answers)
  | createService (t : RPCTopic)
  | enableService (t : RPCTopic) (answers : Answers)

/-- `create_new_bridge`; the exception of the constructor is caught. -/
def createNewBridge (s : State) (t : DdsTopic) (answers : Answers) : State :=
  match createAll db answers (topicLayout t) (topicOrder db.getParticipantsIds) (fun _ => OrdMap.empty) s.store with
  | (m, store, true) => { s with store := store, bridges := s.bridges.set t ⟨t, m⟩ }
  | (m, store, false) => { s with store := store, lost := slots (topicLayout t) TopicMap.all m ++ s.lost }

/-- `RPCBridge::enable` where it has not been initialised. -/
def initService (s : State) (v : ServiceBridge) (answers : Answers) : State :=
  let (m, store, ok) :=
    createAll db answers (serviceLayout v.topic) (serviceOrder db.getRtpsParticipantsIds) v.maps s.store
  { s with store := store, services := s.services.set v.topic { v with maps := m, init := ok } }

def step (s : State) : Action → Option State
  | .activateTopic t answers => some (if s.bridges.contains t then s else createNewBridge db s t answers)
  | .createService t =>
    some (if s.services.contains t then s else { s with services := s.services.set t { topic := t } })
  | .enableService t answers =>
    (s.services.find t).map fun v => if v.init then s else initService db s v answers

/-- The asserts of `~DDSBridge`. -/
def TopicBridge.complete (b : TopicBridge) : Bool :=
  db.getParticipantsIds.all fun id => TopicMap.all.all fun x => (b.maps x).contains id

/-- `~DDSBridge`; `none` where an assert fails. -/
def destroyBridge (s : Store) (b : TopicBridge) : Option Store :=
  if b.complete db then some (deleteAll db (topicLayout b.topic) (topicOrder db.getParticipantsIds) b.maps s).2
  else none

/-- `~RPCBridge`. -/
def destroyService (s : Store) (v : ServiceBridge) : Store :=
  (deleteAll db (serviceLayout v.topic) (serviceDeletionOrder db.getParticipantsIds) v.maps s).2

/-- `~DDSRouterImpl`, up to the participants. -/
def destroy (s : State) : Option Store :=
  ((s.bridges.entries.map Prod.snd).foldlM (destroyBridge db) s.store).map fun store =>
    (s.services.entries.map Prod.snd).foldl (destroyService db) store

/-! ### What is registered -/

def participantSlots (id : ParticipantId) (p : BaseParticipant Nat Nat) : List Slot :=
  (p.writers.entries.map fun e => ⟨.writer, id, e.2⟩) ++ p.readers.entries.map fun e => ⟨.reader, id, e.2⟩

/-- The endpoints that the participants have. -/
def registered (ids : List ParticipantId) (ps : Participants Nat Nat) : List Slot :=
  ids.flatMap fun id => participantSlots id (ps id)

/-- Those endpoints that their participants keep. -/
def kept (l : List Slot) : List Slot := l.filter fun x => registers db x.id

/-- The participants have the endpoints in `held` that are kept, and each pointer was
given once. -/
structure Owned (ids : List ParticipantId) (held : List Slot) (s : Store) : Prop where
  registered : (registered ids s.participants).Perm (kept db held)
  pointers : ((held ++ s.deleted).map Slot.pointer).Perm (List.range s.next)
  known : ∀ x ∈ held, x.id ∈ ids

variable {db} {ids : List ParticipantId} {held : List Slot} {s s' : Store} {id : ParticipantId} {side : EndpointSide}
  {topic : DdsTopic} {pointer : Nat} {answers : Answers}

theorem kept_cons (h : registers db id = true) :
    kept db (⟨side, id, pointer⟩ :: held) = ⟨side, id, pointer⟩ :: kept db held :=
  List.filter_cons_of_pos h

theorem kept_cons_of_not (h : ¬ registers db id = true) : kept db (⟨side, id, pointer⟩ :: held) = kept db held :=
  List.filter_cons_of_neg h

theorem owned_congr {held' : List Slot} (h : Owned db ids held s) (hp : held.Perm held') : Owned db ids held' s :=
  ⟨h.registered.trans (hp.filter _), ((hp.symm.append_right _).map _).trans h.pointers,
    fun x hx => h.known x (hp.mem_iff.mpr hx)⟩

/-- One list of several gets one more element. -/
theorem flatMap_perm_cons {α β : Type} {l : List α} (hnd : l.Nodup) {a : α} (ha : a ∈ l) {f g : α → List β} {b : β}
    (hother : ∀ c, c ≠ a → g c = f c) (hone : (g a).Perm (b :: f a)) : (l.flatMap g).Perm (b :: l.flatMap f) := by
  induction l with
  | nil => cases ha
  | cons c l ih =>
    rw [List.nodup_cons] at hnd
    rw [List.flatMap_cons, List.flatMap_cons]
    by_cases hc : c = a
    · subst hc
      have hrest : l.flatMap g = l.flatMap f :=
        List.flatMap_congr fun d hd => hother d (ne_of_mem_of_not_mem hd hnd.1)
      rw [hrest]
      exact hone.append_right _
    · have hal : a ∈ l := (List.mem_cons.mp ha).resolve_left (Ne.symm hc)
      rw [hother c hc]
      exact ((ih hnd.2 hal).append_left _).trans List.perm_middle

/-- One participant has one more endpoint. -/
theorem registered_update (hnd : ids.Nodup) (hid : id ∈ ids) {ps : Participants Nat Nat} {p : BaseParticipant Nat Nat}
    {x : Slot} (hp : (participantSlots id p).Perm (x :: participantSlots id (ps id))) :
    (registered ids (Function.update ps id p)).Perm (x :: registered ids ps) :=
  flatMap_perm_cons hnd hid (fun j hj => by rw [Function.update_of_ne hj]) (by rwa [Function.update_self])

theorem create_slots {p p' : BaseParticipant Nat Nat} {n : Nat} (h : p.create side topic (some n) = some p') :
    (participantSlots id p').Perm (⟨side, id, n⟩ :: participantSlots id p) := by
  cases side with
  | writer =>
    simp only [BaseParticipant.create, BaseParticipant.createWriter, Option.map_some] at h
    split at h
    · cases h
    · rename_i hn
      cases h
      have hp := OrdMap.entries_set_perm (m := p.writers) (k := topic) (by simpa [OrdMap.contains] using hn) n
      exact (hp.map _).append_right _
  | reader =>
    simp only [BaseParticipant.create, BaseParticipant.createReader, Option.map_some] at h
    split at h
    · cases h
    · rename_i hn
      cases h
      have hp := OrdMap.entries_set_perm (m := p.readers) (k := topic) (by simpa [OrdMap.contains] using hn) n
      exact ((hp.map _).append_left _).trans List.perm_middle

/-- The entry that a deletion finds goes. -/
theorem delete_slots {p : BaseParticipant Nat Nat} (h : ⟨side, id, pointer⟩ ∈ participantSlots id p) :
    ∃ p', p.delete side pointer = some p' ∧
      (participantSlots id p).Perm (⟨side, id, pointer⟩ :: participantSlots id p') := by
  have hfind : ∀ m : OrdMap DdsTopic Nat, (∃ e ∈ m.entries, e.2 = pointer) →
      ∃ e, (m.entries.find? fun e => decide (e.2 = pointer)) = some e ∧
        ∀ side, (m.entries.map fun e => (⟨side, id, e.2⟩ : Slot)).Perm
          (⟨side, id, pointer⟩ :: (m.erase e.1).entries.map fun e => ⟨side, id, e.2⟩) := by
    rintro m ⟨e₀, he₀, hp₀⟩
    obtain ⟨e, he⟩ := Option.isSome_iff_exists.mp (List.find?_isSome (p := fun e => decide (e.2 = pointer)).mpr
      ⟨e₀, he₀, by simpa using hp₀⟩)
    have hpointer : e.2 = pointer := by simpa using List.find?_some he
    obtain ⟨k', -, hperm⟩ := OrdMap.entries_erase_perm (OrdMap.find_of_mem (List.mem_of_find?_eq_some he))
    refine ⟨e, he, fun side => (hperm.map _).trans ?_⟩
    rw [List.map_cons, hpointer]
  rw [participantSlots, List.mem_append, List.mem_map, List.mem_map] at h
  cases side with
  | writer =>
    obtain ⟨e, he, hperm⟩ := hfind p.writers (by
      rcases h with ⟨e, he, heq⟩ | ⟨e, he, heq⟩
      · exact ⟨e, he, congrArg Slot.pointer heq⟩
      · cases heq)
    exact ⟨_, by rw [BaseParticipant.delete, BaseParticipant.deleteWriter, he]; rfl, (hperm .writer).append_right _⟩
  | reader =>
    obtain ⟨e, he, hperm⟩ := hfind p.readers (by
      rcases h with ⟨e, he, heq⟩ | ⟨e, he, heq⟩
      · cases heq
      · exact ⟨e, he, congrArg Slot.pointer heq⟩)
    exact ⟨_, by rw [BaseParticipant.delete, BaseParticipant.deleteReader, he]; rfl,
      ((hperm .reader).append_left _).trans List.perm_middle⟩

/-! ### Creation and deletion of one endpoint -/

/-- The participant has an endpoint for the topic. -/
def Has (s : Store) (side : EndpointSide) (id : ParticipantId) (topic : DdsTopic) : Prop :=
  ((s.participants id).endpoints side).contains topic = true

theorem create_has {p p' : BaseParticipant Nat Nat} {answer : Option Nat} (h : p.create side topic answer = some p') :
    (p.endpoints side).contains topic = false ∧ (p'.endpoints side).contains topic = true ∧
      ∀ side' topic', (p.endpoints side').contains topic' = true → (p'.endpoints side').contains topic' = true := by
  cases side with
  | writer =>
    simp only [BaseParticipant.create, BaseParticipant.createWriter] at h
    split at h
    · cases h
    · rename_i hn
      obtain ⟨w, -, rfl⟩ := Option.map_eq_some_iff.mp h
      refine ⟨by simpa [BaseParticipant.endpoints] using hn, by simp [BaseParticipant.endpoints], fun side' topic' h' => ?_⟩
      cases side' with
      | writer => simpa [BaseParticipant.endpoints] using .inr h'
      | reader => exact h'
  | reader =>
    simp only [BaseParticipant.create, BaseParticipant.createReader] at h
    split at h
    · cases h
    · rename_i hn
      obtain ⟨w, -, rfl⟩ := Option.map_eq_some_iff.mp h
      refine ⟨by simpa [BaseParticipant.endpoints] using hn, by simp [BaseParticipant.endpoints], fun side' topic' h' => ?_⟩
      cases side' with
      | writer => exact h'
      | reader => simpa [BaseParticipant.endpoints] using .inr h'

theorem pointers_cons {n : Nat} {l : List Nat} (h : l.Perm (List.range n)) : (n :: l).Perm (List.range (n + 1)) := by
  rw [List.range_succ]
  exact (h.cons _).trans (List.perm_append_singleton n (List.range n)).symm

/-- What a successful creation does to the participants. -/
theorem create_owned (hnd : ids.Nodup) (hid : id ∈ ids) (h : Owned db ids held s)
    (hc : create db answers s side id topic = some (pointer, s')) :
    Owned db ids (⟨side, id, pointer⟩ :: held) s' ∧
      (registers db id = true → ¬ Has s side id topic ∧ Has s' side id topic) ∧
      ∀ side' id' topic', Has s side' id' topic' → Has s' side' id' topic' := by
  unfold create at hc
  split at hc
  · rename_i hreg
    obtain ⟨p, hp, heq⟩ := Option.map_eq_some_iff.mp hc
    simp only [Prod.mk.injEq] at heq
    obtain ⟨rfl, rfl⟩ := heq
    obtain ⟨hbefore, hafter, hkeep⟩ := create_has hp
    refine ⟨⟨?_, pointers_cons h.pointers, List.forall_mem_cons.mpr ⟨hid, h.known⟩⟩,
      fun _ => ⟨by simp [Has, hbefore], by simp [Has, hafter]⟩, fun side' id' topic' h' => ?_⟩
    · rw [kept_cons hreg]
      split at hp
      · exact (registered_update hnd hid (create_slots hp)).trans (h.registered.cons _)
      · cases side <;> simp [BaseParticipant.create, BaseParticipant.createWriter, BaseParticipant.createReader] at hp
    · unfold Has at h' ⊢
      by_cases hi : id' = id
      · subst hi
        simpa using hkeep side' topic' h'
      · simpa [hi] using h'
  · rename_i hreg
    cases hc
    refine ⟨⟨?_, pointers_cons h.pointers, List.forall_mem_cons.mpr ⟨hid, h.known⟩⟩, fun h' => absurd h' hreg,
      fun _ _ _ h' => h'⟩
    rw [kept_cons_of_not hreg]
    exact h.registered

theorem delete_owned (hnd : ids.Nodup) (hid : id ∈ ids) (h : Owned db ids (⟨side, id, pointer⟩ :: held) s) :
    Owned db ids held (delete db s side id pointer) ∧ (delete db s side id pointer).next = s.next := by
  have hknown : ∀ x ∈ held, x.id ∈ ids := fun x hx => h.known x (List.mem_cons_of_mem _ hx)
  have hpointers : ((held ++ ⟨side, id, pointer⟩ :: s.deleted).map Slot.pointer).Perm (List.range s.next) :=
    (List.perm_middle.map _).trans h.pointers
  have hregistered := h.registered
  unfold delete
  split
  · rename_i hreg
    rw [kept_cons hreg] at hregistered
    have hmem : (⟨side, id, pointer⟩ : Slot) ∈ participantSlots id (s.participants id) := by
      obtain ⟨j, hj, hslot⟩ := List.mem_flatMap.mp (hregistered.mem_iff.mpr List.mem_cons_self)
      have hji : j = id := by
        rw [participantSlots, List.mem_append, List.mem_map, List.mem_map] at hslot
        rcases hslot with ⟨e, -, he⟩ | ⟨e, -, he⟩ <;> exact congrArg Slot.id he
      exact hji ▸ hslot
    obtain ⟨p', hp', hperm⟩ := delete_slots hmem
    rw [hp']
    refine ⟨⟨?_, hpointers, hknown⟩, rfl⟩
    have hback : (registered ids s.participants).Perm
        (⟨side, id, pointer⟩ :: registered ids (Function.update s.participants id p')) := by
      have hslots : (participantSlots id (s.participants id)).Perm
          (⟨side, id, pointer⟩ :: participantSlots id (Function.update s.participants id p' id)) := by
        rwa [Function.update_self]
      have hup := registered_update hnd hid hslots
      rwa [Function.update_idem, Function.update_eq_self] at hup
    exact (hback.symm.trans hregistered).cons_inv
  · rename_i hreg
    rw [kept_cons_of_not hreg] at hregistered
    exact ⟨⟨hregistered, hpointers, hknown⟩, rfl⟩

/-! ### The endpoints of one bridge -/

section Bridges

variable {π : Type} [DecidableEq π] {l : Layout π} {names : List π} {m m' : Maps π} {ok : Bool}

/-- Whatever is in the maps, its participant has an endpoint for the topic if it keeps any. -/
def Filled (db : Configuration.Participants) (l : Layout π) (m : Maps π) (s : Store) : Prop :=
  ∀ x id pointer, (m x).find id = some pointer → registers db id = true → Has s (l.side x) id (l.topic x)

/-- A creation has a place in the maps: the participant refuses a second one, or it is the
first of its place. -/
def Fresh (db : Configuration.Participants) (calls : List (π × ParticipantId)) (m : Maps π) : Prop :=
  (∀ c ∈ calls, registers db c.2 = true) ∨ calls.Nodup ∧ ∀ c ∈ calls, (m c.1).find c.2 = none

theorem slots_set (hn : names.Nodup) {x : π} (hx : x ∈ names) (hf : (m x).find id = none) :
    (slots l names (Function.update m x ((m x).set id pointer))).Perm (⟨l.side x, id, pointer⟩ :: slots l names m) := by
  refine flatMap_perm_cons hn hx (fun y hy => by rw [Function.update_of_ne hy]) ?_
  rw [Function.update_self]
  exact (OrdMap.entries_set_perm hf pointer).map _

theorem slots_erase (hn : names.Nodup) {x : π} (hx : x ∈ names) (hf : (m x).find id = some pointer) :
    (slots l names m).Perm (⟨l.side x, id, pointer⟩ :: slots l names (Function.update m x ((m x).erase id))) := by
  refine flatMap_perm_cons hn hx (fun y hy => by rw [Function.update_of_ne hy]) ?_
  rw [Function.update_self]
  obtain ⟨k, hk, hperm⟩ := OrdMap.entries_erase_perm hf
  rw [← same_iff_eq.mp hk] at hperm
  exact hperm.map _

theorem fresh_cons {x : π} {calls : List (π × ParticipantId)} (h : Fresh db ((x, id) :: calls) m) (pointer : Nat) :
    Fresh db calls (Function.update m x ((m x).set id pointer)) := by
  rcases h with hall | ⟨hnodup, hnone⟩
  · exact .inl fun c hc => hall c (List.mem_cons_of_mem _ hc)
  · rw [List.nodup_cons] at hnodup
    refine .inr ⟨hnodup.2, fun c hc => ?_⟩
    have hc' := hnone c (List.mem_cons_of_mem _ hc)
    by_cases hx : c.1 = x
    · have hne : same c.2 id = false := by
        rw [Bool.eq_false_iff, Ne, same_iff_eq]
        intro heq
        have hpair : c = (x, id) := Prod.ext hx heq
        exact hnodup.1 (hpair ▸ hc)
      rw [hx] at hc' ⊢
      rw [Function.update_self, OrdMap.find_set, hne]
      exact hc'
    · rwa [Function.update_of_ne hx]

/-- A sequence of creations, whether or not it comes to its end. -/
theorem createAll_owned (hnd : ids.Nodup) (hn : names.Nodup) {calls : List (π × ParticipantId)}
    (hcalls : ∀ c ∈ calls, c.1 ∈ names ∧ c.2 ∈ ids) (hfresh : Fresh db calls m)
    (h : Owned db ids (slots l names m ++ held) s) (hm : Filled db l m s)
    (hc : createAll db answers l calls m s = (m', s', ok)) :
    Owned db ids (slots l names m' ++ held) s' ∧ Filled db l m' s' ∧
      (∀ side id topic, Has s side id topic → Has s' side id topic) ∧
      (∀ x id, (m x).contains id = true → (m' x).contains id = true) ∧
      (ok = true → ∀ c ∈ calls, (m' c.1).contains c.2 = true) := by
  induction calls generalizing m s with
  | nil =>
    simp only [createAll, Prod.mk.injEq] at hc
    obtain ⟨rfl, rfl, -⟩ := hc
    exact ⟨h, hm, fun _ _ _ h => h, fun _ _ h => h, by simp⟩
  | cons c calls ih =>
    obtain ⟨x, id⟩ := c
    obtain ⟨hx, hid⟩ := hcalls (x, id) List.mem_cons_self
    rw [createAll] at hc
    split at hc
    · simp only [Prod.mk.injEq] at hc
      obtain ⟨rfl, rfl, rfl⟩ := hc
      exact ⟨h, hm, fun _ _ _ h => h, fun _ _ h => h, by simp⟩
    · rename_i pointer s₁ hone
      obtain ⟨hown, hregisters, hkeep⟩ := create_owned hnd hid h hone
      have hnone : (m x).find id = none := by
        rcases hfresh with hall | ⟨-, hnone⟩
        · -- the participant had no such endpoint, so the bridge had none either
          have hreg := hall (x, id) List.mem_cons_self
          cases hf : (m x).find id with
          | none => rfl
          | some n => exact absurd (hm x id n hf hreg) (hregisters hreg).1
        · exact hnone (x, id) List.mem_cons_self
      have hfilled : Filled db l (Function.update m x ((m x).set id pointer)) s₁ := by
        intro y j n hf hreg
        by_cases hy : y = x
        · subst hy
          rw [Function.update_self, OrdMap.find_set] at hf
          split at hf
          · rename_i hsame
            rw [same_iff_eq.mp hsame] at hreg ⊢
            exact (hregisters hreg).2
          · exact hkeep _ _ _ (hm y j n hf hreg)
        · rw [Function.update_of_ne hy] at hf
          exact hkeep _ _ _ (hm y j n hf hreg)
      have hslots : Owned db ids (slots l names (Function.update m x ((m x).set id pointer)) ++ held) s₁ :=
        owned_congr hown ((slots_set hn hx hnone).append_right held).symm
      obtain ⟨hown', hfilled', hkeep', hmaps, hall⟩ :=
        ih (fun c hc => hcalls c (List.mem_cons_of_mem _ hc)) (fresh_cons hfresh pointer) hslots hfilled hc
      have hadd : ∀ y j, (m y).contains j = true → (Function.update m x ((m x).set id pointer) y).contains j = true := by
        intro y j hj
        by_cases hy : y = x
        · subst hy
          rw [Function.update_self, OrdMap.contains_set, hj, Bool.or_true]
        · rwa [Function.update_of_ne hy]
      refine ⟨hown', hfilled', fun side j t h' => hkeep' side j t (hkeep side j t h'), fun y j hj => hmaps y j (hadd y j hj),
        fun hok c hc => ?_⟩
      rcases List.mem_cons.mp hc with rfl | hc
      · exact hmaps x id (by simp)
      · exact hall hok c hc

/-- A sequence of deletions, which all find their endpoints. -/
theorem deleteAll_owned (hnd : ids.Nodup) (hn : names.Nodup) {calls : List (π × ParticipantId)}
    (hcalls : ∀ c ∈ calls, c.1 ∈ names ∧ c.2 ∈ ids) (h : Owned db ids (slots l names m ++ held) s)
    (hd : deleteAll db l calls m s = (m', s')) :
    Owned db ids (slots l names m' ++ held) s' ∧ s'.next = s.next ∧
      (∀ x id, (m x).find id = none → (m' x).find id = none) ∧ ∀ c ∈ calls, (m' c.1).find c.2 = none := by
  induction calls generalizing m s with
  | nil =>
    simp only [deleteAll, Prod.mk.injEq] at hd
    obtain ⟨rfl, rfl⟩ := hd
    exact ⟨h, rfl, fun _ _ h => h, by simp⟩
  | cons c calls ih =>
    obtain ⟨x, id⟩ := c
    obtain ⟨hx, hid⟩ := hcalls (x, id) List.mem_cons_self
    have hrest : ∀ c ∈ calls, c.1 ∈ names ∧ c.2 ∈ ids := fun c hc => hcalls c (List.mem_cons_of_mem _ hc)
    rw [deleteAll] at hd
    split at hd
    · rename_i hnone
      obtain ⟨hown, hnext, hmaps, hall⟩ := ih hrest h hd
      refine ⟨hown, hnext, hmaps, fun c hc => ?_⟩
      rcases List.mem_cons.mp hc with rfl | hc
      · exact hmaps x id hnone
      · exact hall c hc
    · rename_i pointer hf
      have hslots : Owned db ids (⟨l.side x, id, pointer⟩ ::
          (slots l names (Function.update m x ((m x).erase id)) ++ held)) s :=
        owned_congr h ((slots_erase hn hx hf).append_right held)
      obtain ⟨hone, hnext₁⟩ := delete_owned hnd hid hslots
      obtain ⟨hown, hnext, hmaps, hall⟩ := ih hrest hone hd
      have herase : ∀ y j, (m y).find j = none → (Function.update m x ((m x).erase id) y).find j = none := by
        intro y j hj
        by_cases hy : y = x
        · subst hy
          rw [Function.update_self, OrdMap.find_erase, hj, ite_self]
        · rwa [Function.update_of_ne hy]
      refine ⟨hown, hnext.trans hnext₁, fun y j hj => hmaps y j (herase y j hj), fun c hc => ?_⟩
      rcases List.mem_cons.mp hc with rfl | hc
      · exact hmaps x id (by simp)
      · exact hall c hc

omit [DecidableEq π] in
/-- Maps without an entry for any participant are empty. -/
theorem slots_eq_nil (h : Owned db ids (slots l names m ++ held) s)
    (hnone : ∀ x ∈ names, ∀ id ∈ ids, (m x).find id = none) :
    slots l names m = [] := by
  rw [List.eq_nil_iff_forall_not_mem]
  intro slot hslot
  have hid := h.known slot (List.mem_append_left held hslot)
  obtain ⟨x, hx, hin⟩ := List.mem_flatMap.mp hslot
  obtain ⟨e, he, rfl⟩ := List.mem_map.mp hin
  have hfind := hnone x hx e.1 hid
  rw [OrdMap.find_of_mem he] at hfind
  cases hfind

/-- All the endpoints of a bridge go with it. -/
theorem deleteAll_all (hnd : ids.Nodup) (hn : names.Nodup) {calls : List (π × ParticipantId)}
    (hcalls : ∀ c, c ∈ calls ↔ c.1 ∈ names ∧ c.2 ∈ ids) (h : Owned db ids (slots l names m ++ held) s) :
    Owned db ids held (deleteAll db l calls m s).2 ∧ (deleteAll db l calls m s).2.next = s.next := by
  obtain ⟨hown, hnext, -, hall⟩ := deleteAll_owned hnd hn (fun c hc => (hcalls c).mp hc) h rfl
  have hnil := slots_eq_nil hown fun x hx id hid => hall (x, id) ((hcalls _).mpr ⟨hx, hid⟩)
  rw [hnil] at hown
  exact ⟨hown, hnext⟩

end Bridges

/-! ### The router -/

def TopicBridge.slots (b : TopicBridge) : List Slot := EndpointLifecycle.slots (topicLayout b.topic) TopicMap.all b.maps

def ServiceBridge.slots (v : ServiceBridge) : List Slot :=
  EndpointLifecycle.slots (serviceLayout v.topic) ServiceMap.all v.maps

/-- The endpoints that the bridges of the router hold. -/
def State.endpoints (s : State) : List Slot :=
  (s.bridges.entries.map Prod.snd).flatMap TopicBridge.slots ++
    (s.services.entries.map Prod.snd).flatMap ServiceBridge.slots

structure Inv (db : Configuration.Participants) (s : State) : Prop where
  owned : Owned db db.getParticipantsIds (s.endpoints ++ s.lost) s.store
  complete : ∀ t b, s.bridges.find t = some b → b.complete db = true
  filled : ∀ t v, s.services.find t = some v → same t v.topic = true ∧ Filled db (serviceLayout v.topic) v.maps s.store

theorem mem_topicOrder (ids : List ParticipantId) (c : TopicMap × ParticipantId) :
    c ∈ topicOrder ids ↔ c.1 ∈ TopicMap.all ∧ c.2 ∈ ids := by
  obtain ⟨x, id⟩ := c
  cases x <;> simp [topicOrder, TopicMap.all]

theorem mem_serviceOrder (ids : List ParticipantId) (c : ServiceMap × ParticipantId) :
    c ∈ serviceOrder ids ↔ c.1 ∈ ServiceMap.all ∧ c.2 ∈ ids := by
  obtain ⟨x, id⟩ := c
  cases x <;> simp [serviceOrder, ServiceMap.all]

theorem mem_serviceDeletionOrder (ids : List ParticipantId) (c : ServiceMap × ParticipantId) :
    c ∈ serviceDeletionOrder ids ↔ c.1 ∈ ServiceMap.all ∧ c.2 ∈ ids := by
  obtain ⟨x, id⟩ := c
  cases x <;> simp [serviceDeletionOrder, ServiceMap.all]

theorem nodup_topicOrder (hnd : ids.Nodup) : (topicOrder ids).Nodup := by
  induction ids with
  | nil => exact List.nodup_nil
  | cons id ids ih =>
    rw [List.nodup_cons] at hnd
    have hfirst : ∀ x, (x, id) ∉ topicOrder ids := fun x hmem => hnd.1 ((mem_topicOrder ids (x, id)).mp hmem).2
    have hrest := ih hnd.2
    rw [topicOrder, List.flatMap_cons, ← topicOrder]
    simp [hfirst, hrest]

theorem nodup_getParticipantsIds (db : Configuration.Participants) : db.getParticipantsIds.Nodup := db.keys_nodup

theorem mem_of_getRtpsParticipantsIds (h : id ∈ db.getRtpsParticipantsIds) : id ∈ db.getParticipantsIds := by
  obtain ⟨e, he, rfl⟩ := List.mem_map.mp h
  exact List.mem_map.mpr ⟨e, List.mem_of_mem_filter he, rfl⟩

/-- Participants over RTPS are `BaseParticipant`s. -/
theorem registers_of_getRtpsParticipantsIds (h : id ∈ db.getRtpsParticipantsIds) : registers db id = true := by
  obtain ⟨e, he, rfl⟩ := List.mem_map.mp h
  obtain ⟨hmem, hrtps⟩ := List.mem_filter.mp he
  rw [registers, OrdMap.find_of_mem hmem, Option.any_some]
  unfold Configuration.IParticipant.isRtpsKind at hrtps
  cases hk : e.2.kind <;> simp_all [Configuration.isRtpsKind, keepsEndpoints]

section Router

variable {s s' : State} {a : Action}

theorem inv_init (db : Configuration.Participants) : Inv db {} := by
  refine ⟨⟨?_, .refl _, by simp [State.endpoints, OrdMap.empty]⟩, by simp, by simp⟩
  have hnone : ∀ ids, registered ids (fun _ => ({} : BaseParticipant Nat Nat)) = [] := by
    intro ids
    induction ids with
    | nil => rfl
    | cons id ids ih => exact ih
  show (registered _ _).Perm (kept db [])
  rw [hnone]
  exact .refl _

theorem filled_keeps {t : RPCTopic} {m : Maps ServiceMap} {store store' : Store}
    (h : Filled db (serviceLayout t) m store)
    (hkeep : ∀ side id topic, Has store side id topic → Has store' side id topic) :
    Filled db (serviceLayout t) m store' :=
  fun x id pointer hf hreg => hkeep _ _ _ (h x id pointer hf hreg)

theorem inv_createNewBridge (h : Inv db s) {t : DdsTopic} (hn : s.bridges.find t = none) (answers : Answers) :
    Inv db (createNewBridge db s t answers) := by
  have hempty : slots (topicLayout t) TopicMap.all (fun _ => OrdMap.empty) = [] := rfl
  have hown : Owned db db.getParticipantsIds
      (slots (topicLayout t) TopicMap.all (fun _ => OrdMap.empty) ++ (s.endpoints ++ s.lost)) s.store := by
    rw [hempty]
    exact h.owned
  have hcalls : ∀ c ∈ topicOrder db.getParticipantsIds, c.1 ∈ TopicMap.all ∧ c.2 ∈ db.getParticipantsIds :=
    fun c hc => (mem_topicOrder _ c).mp hc
  have hfresh : Fresh db (topicOrder db.getParticipantsIds) (fun _ => OrdMap.empty) :=
    .inr ⟨nodup_topicOrder (nodup_getParticipantsIds db), fun _ _ => rfl⟩
  unfold createNewBridge
  split
  · rename_i m store hc
    obtain ⟨hown', -, hkeep, -, hall⟩ :=
      createAll_owned (nodup_getParticipantsIds db) (by decide) hcalls hfresh hown (by simp [Filled]) hc
    refine ⟨owned_congr hown' ?_, fun u b hb => ?_, fun u v hv => ?_⟩
    · have hentries := ((OrdMap.entries_set_perm hn ⟨t, m⟩).map Prod.snd).flatMap_right TopicBridge.slots
      rw [List.map_cons, List.flatMap_cons] at hentries
      rw [← List.append_assoc, State.endpoints, State.endpoints, ← List.append_assoc]
      exact ((hentries.symm.append_right _).append_right _)
    · simp only [OrdMap.find_set] at hb
      split at hb
      · cases hb
        simp only [TopicBridge.complete, List.all_eq_true]
        exact fun id hid x hx => hall rfl (x, id) ((mem_topicOrder _ _).mpr ⟨hx, hid⟩)
      · exact h.complete u b hb
    · exact ⟨(h.filled u v hv).1, filled_keeps (h.filled u v hv).2 hkeep⟩
  · rename_i m store hc
    obtain ⟨hown', -, hkeep, -, -⟩ :=
      createAll_owned (nodup_getParticipantsIds db) (by decide) hcalls hfresh hown (by simp [Filled]) hc
    refine ⟨owned_congr hown' ?_, h.complete, fun u v hv => ⟨(h.filled u v hv).1, filled_keeps (h.filled u v hv).2 hkeep⟩⟩
    rw [← List.append_assoc, ← List.append_assoc]
    exact List.perm_append_comm.append_right _

theorem inv_initService (h : Inv db s) {t : RPCTopic} {v : ServiceBridge} (hv : s.services.find t = some v)
    (answers : Answers) : Inv db (initService db s v answers) := by
  obtain ⟨htopic, hfilled⟩ := h.filled t v hv
  have hfind : s.services.find v.topic = some v := by rwa [← OrdMap.find_congr htopic]
  obtain ⟨k, -, hperm⟩ := OrdMap.entries_erase_perm hfind
  -- the bridge apart from the others
  have hsplit : (s.endpoints ++ s.lost).Perm (v.slots ++ ((s.bridges.entries.map Prod.snd).flatMap TopicBridge.slots ++
      (((s.services.erase v.topic).entries.map Prod.snd).flatMap ServiceBridge.slots ++ s.lost))) := by
    have hservices := (hperm.map Prod.snd).flatMap_right ServiceBridge.slots
    rw [List.map_cons, List.flatMap_cons] at hservices
    rw [State.endpoints, List.append_assoc]
    refine ((hservices.append_right _).append_left _).trans ?_
    rw [List.append_assoc]
    exact List.perm_append_comm_assoc _ _ _
  have hcalls : ∀ c ∈ serviceOrder db.getRtpsParticipantsIds, c.1 ∈ ServiceMap.all ∧ c.2 ∈ db.getParticipantsIds :=
    fun c hc => ⟨((mem_serviceOrder _ c).mp hc).1, mem_of_getRtpsParticipantsIds ((mem_serviceOrder _ c).mp hc).2⟩
  have hfresh : Fresh db (serviceOrder db.getRtpsParticipantsIds) v.maps :=
    .inl fun c hc => registers_of_getRtpsParticipantsIds ((mem_serviceOrder _ c).mp hc).2
  unfold initService
  split
  rename_i m store ok hc
  obtain ⟨hown', hfilled', hkeep, -, -⟩ := createAll_owned (nodup_getParticipantsIds db) (by decide) hcalls hfresh
    (owned_congr h.owned hsplit) hfilled hc
  refine ⟨owned_congr hown' ?_, h.complete, fun u w hw => ?_⟩
  · obtain ⟨k', -, hperm'⟩ := OrdMap.entries_erase_perm (OrdMap.find_set_self s.services v.topic { v with maps := m, init := ok })
    have hservices := (hperm'.map Prod.snd).flatMap_right ServiceBridge.slots
    rw [List.map_cons, List.flatMap_cons, OrdMap.entries_erase_set] at hservices
    rw [State.endpoints, List.append_assoc]
    refine .trans ?_ ((hservices.symm.append_right _).append_left _)
    rw [List.append_assoc]
    exact List.perm_append_comm_assoc _ _ _
  · simp only [OrdMap.find_set] at hw
    split at hw
    · rename_i hsame
      cases hw
      exact ⟨hsame, hfilled'⟩
    · exact ⟨(h.filled u w hw).1, filled_keeps (h.filled u w hw).2 hkeep⟩

theorem inv_step (h : Inv db s) (hs : step db s a = some s') : Inv db s' := by
  cases a with
  | activateTopic t answers =>
    cases hs
    split
    · exact h
    · rename_i hn
      exact inv_createNewBridge h (by simpa [OrdMap.contains] using hn) answers
  | createService t =>
    cases hs
    split
    · exact h
    · rename_i hn
      have hnone : s.services.find t = none := by simpa [OrdMap.contains] using hn
      refine ⟨owned_congr h.owned ?_, h.complete, fun u v hv => ?_⟩
      · have hentries := ((OrdMap.entries_set_perm hnone { topic := t }).map Prod.snd).flatMap_right ServiceBridge.slots
        refine List.Perm.append_right _ (List.Perm.append_left _ ?_)
        exact hentries.symm
      · simp only [OrdMap.find_set] at hv
        split at hv
        · rename_i hsame
          cases hv
          exact ⟨hsame, by simp [Filled]⟩
        · exact h.filled u v hv
  | enableService t answers =>
    obtain ⟨v, hv, rfl⟩ := Option.map_eq_some_iff.mp hs
    split
    · exact h
    · exact inv_initService h hv answers

/-- The bridges of topics go one after another, and no assert fails. -/
theorem destroyBridges_owned {bs : List TopicBridge} {rest : List Slot} {store : Store}
    (hc : ∀ b ∈ bs, b.complete db = true)
    (h : Owned db db.getParticipantsIds (bs.flatMap TopicBridge.slots ++ rest) store) :
    ∃ store', bs.foldlM (destroyBridge db) store = some store' ∧ Owned db db.getParticipantsIds rest store' ∧
      store'.next = store.next := by
  induction bs generalizing store with
  | nil => exact ⟨store, rfl, h, rfl⟩
  | cons b bs ih =>
    rw [List.flatMap_cons, List.append_assoc] at h
    obtain ⟨hown, hnext⟩ := deleteAll_all (nodup_getParticipantsIds db) (by decide) (mem_topicOrder _) h
    obtain ⟨store', hfold, hown', hnext'⟩ := ih (fun b' hb' => hc b' (List.mem_cons_of_mem _ hb')) hown
    refine ⟨store', ?_, hown', hnext'.trans hnext⟩
    rw [List.foldlM_cons, destroyBridge, if_pos (hc b List.mem_cons_self)]
    exact hfold

theorem destroyServices_owned {vs : List ServiceBridge} {rest : List Slot} {store : Store}
    (h : Owned db db.getParticipantsIds (vs.flatMap ServiceBridge.slots ++ rest) store) :
    Owned db db.getParticipantsIds rest (vs.foldl (destroyService db) store) ∧
      (vs.foldl (destroyService db) store).next = store.next := by
  induction vs generalizing store with
  | nil => exact ⟨h, rfl⟩
  | cons v vs ih =>
    rw [List.flatMap_cons, List.append_assoc] at h
    obtain ⟨hown, hnext⟩ := deleteAll_all (nodup_getParticipantsIds db) (by decide) (mem_serviceDeletionOrder _) h
    obtain ⟨hown', hnext'⟩ := ih hown
    exact ⟨hown', hnext'.trans hnext⟩

/-- However topics are activated and services enabled, and whichever creations fail, the
destructor of the router comes to its end. Each endpoint that was ever created is
given back exactly once, to the participant that it came from, or was lost by the
constructor of a topic's bridge that threw. The participants that keep their endpoints
still have those of the lost ones that are theirs, and no others. -/
theorem endpoints_deleted_once {as : List Action} (hr : run (step db) {} as = some s) :
    ∃ store, destroy db s = some store ∧
      (registered db.getParticipantsIds store.participants).Perm (kept db s.lost) ∧
      ((s.lost ++ store.deleted).map Slot.pointer).Perm (List.range s.store.next) := by
  have h : Inv db s := run_invariant (fun _ _ _ hI hs => inv_step hI hs) (inv_init db) hr
  have hown := h.owned
  rw [State.endpoints, List.append_assoc] at hown
  have hcomplete : ∀ b ∈ s.bridges.entries.map Prod.snd, b.complete db = true := by
    intro b hb
    obtain ⟨e, he, rfl⟩ := List.mem_map.mp hb
    exact h.complete e.1 e.2 (OrdMap.find_of_mem he)
  obtain ⟨store, hbridges, hown, hnext⟩ := destroyBridges_owned hcomplete hown
  obtain ⟨hown, hnext'⟩ := destroyServices_owned hown
  refine ⟨_, by rw [destroy, hbridges]; rfl, hown.registered, ?_⟩
  have hpointers := hown.pointers
  rwa [hnext', hnext] at hpointers

/-! One of two participants over RTPS cannot create readers for a topic, nor for the
replies of a service. Between them stands an echo, which keeps nothing. -/

def twoSimpleAndEcho : Configuration.Participants :=
  ((OrdMap.empty.set ⟨"a"⟩ ⟨⟨"a"⟩, .simpleRtps, false⟩).set ⟨"b"⟩ ⟨⟨"b"⟩, .echo, false⟩).set ⟨"c"⟩
    ⟨⟨"c"⟩, .simpleRtps, false⟩

def addTwoInts : RPCTopic :=
  RPCTopic.ofTopic { topicName := "rq/add_two_intsRequest", typeName := "AddTwoInts_Request_" }

/-- All but the readers of one participant. -/
def allButReaders (id : ParticipantId) : Answers := fun side i _ => side = .writer || i ≠ id

def chatter : DdsTopic := { topicName := "chatter", typeName := "String" }

/-- The second time, the creation for the topic fails where an endpoint was lost. -/
def someFail : List Action :=
  [.activateTopic chatter (allButReaders ⟨"c"⟩), .activateTopic chatter fun _ _ _ => true,
    .activateTopic { topicName := "news", typeName := "String" } fun _ _ _ => true,
    .createService addTwoInts, .enableService addTwoInts (allButReaders ⟨"c"⟩)]

theorem some_fail_all_deleted :
    ∃ s store, run (step twoSimpleAndEcho) {} someFail = some s ∧ destroy twoSimpleAndEcho s = some store ∧
      s.lost.map (fun x => (x.id.id, x.pointer)) = [("a", 0), ("b", 2), ("c", 4), ("a", 1), ("b", 3)] ∧
      (registered twoSimpleAndEcho.getParticipantsIds store.participants).length = 3 ∧
      ((s.lost ++ store.deleted).map Slot.pointer).Perm (List.range s.store.next) := by
  have hrun : (run (step twoSimpleAndEcho) {} someFail).map (fun s => (s.lost.map (fun x => (x.id.id, x.pointer)),
      (kept twoSimpleAndEcho s.lost).length)) =
        some ([("a", 0), ("b", 2), ("c", 4), ("a", 1), ("b", 3)], 3) := by decide +kernel
  obtain ⟨s, hs, hobs⟩ := Option.map_eq_some_iff.mp hrun
  simp only [Prod.mk.injEq] at hobs
  obtain ⟨store, hdestroy, hregistered, hpointers⟩ := endpoints_deleted_once hs
  exact ⟨s, store, hs, hdestroy, hobs.1, by rw [hregistered.length_eq, hobs.2], hpointers⟩

end Router

end EndpointLifecycle

end DDSRouter
