import DDSRouter.Types

/-!
# RTPS readers

The reader of one participant in one topic: `CommonReader` over `BaseReader`.
Its history holds the changes that were received and not taken yet. A change
carries the number of its arrival, which stands for the identity of the cache
change object. Two things that Fast DDS decides are left open: where in the
history a change is put, and whether the history finds its first change when it
is asked for the next one.
-/
namespace DDSRouter

inductive ChangeKind where
  | alive | notAliveDisposed | notAliveUnregistered | notAliveDisposedUnregistered
  deriving DecidableEq, Repr

/-- The fields of a received cache change that the router reads, and the number of
changes in the history that it is put before. -/
structure CacheChange where
  writerGuid : Guid
  sequenceNumber : SequenceNumber
  length : Nat
  maxSize : Nat
  kind : ChangeKind := .alive
  instanceHandle : BitVec 128 := 0
  sourceTimestamp : Int := 0
  sampleIdentity : SampleIdentity := SampleIdentity.unknown
  relatedSampleIdentity : SampleIdentity := SampleIdentity.unknown
  place : Nat := 0
  deriving DecidableEq, Repr

/-- `DataReceived` with its properties; the payload is its length and size. -/
structure DataReceived where
  length : Nat
  maxSize : Nat
  sourceGuid : Guid
  sourceTimestamp : Int
  participantReceiver : ParticipantId
  instanceHandle : BitVec 128
  kind : ChangeKind
  sampleIdentity : SampleIdentity
  relatedSampleIdentity : SampleIdentity
  originSequenceNumber : SequenceNumber
  deriving DecidableEq, Repr

/-- A change of a history with the number of its arrival. -/
abbrev Arrival (α : Type) := Nat × α

structure Reader where
  participantId : ParticipantId
  guid : Guid
  topic : DdsTopic
  enabled : Bool := false
  history : List (Arrival CacheChange) := []
  deriving DecidableEq, Repr

namespace Reader

def comeFromThisParticipant (r : Reader) (c : CacheChange) : Bool :=
  c.writerGuid.guidPrefix = r.guid.guidPrefix

/-- Data of size zero is correct only when a keyed instance is being disposed. -/
def isDataCorrect (r : Reader) (c : CacheChange) : ReturnCode :=
  if c.writerGuid = Guid.unknown then .error
  else if ¬ c.maxSize > 0 ∧ ¬ (r.topic.keyed ∧ c.kind ≠ .alive) then .error
  else .ok

def fillReceivedData (r : Reader) (c : CacheChange) : DataReceived :=
  { length := if c.length > 0 then c.length else 0
    maxSize := if c.length > 0 then c.maxSize else 0
    sourceGuid := c.writerGuid
    sourceTimestamp := c.sourceTimestamp
    participantReceiver := r.participantId
    instanceHandle := if r.topic.keyed then c.instanceHandle else 0
    kind := c.kind
    sampleIdentity := c.sampleIdentity
    relatedSampleIdentity := c.relatedSampleIdentity
    originSequenceNumber := c.sequenceNumber }

/-- The ways in which `take` returns. -/
inductive TakeResult where
  | notEnabled
  | noData
  | notFound
  | discarded (n : Nat)
  | taken (n : Nat) (data : DataReceived)
  deriving DecidableEq, Repr

def TakeResult.code : TakeResult → ReturnCode
  | .notEnabled => .notEnabled
  | .noData => .noData
  | .notFound => .error
  | .discarded _ => .error
  | .taken _ _ => .ok

/-- `BaseReader::take` with `CommonReader::take_`; `found` is what
`nextUntakenCache` answers on a history that is not empty. -/
def take (r : Reader) (found : Bool) : TakeResult × Reader :=
  if r.enabled then
    match r.history with
    | [] => (.noData, r)
    | (n, c) :: rest =>
      if !found then (.notFound, r)
      else if isDataCorrect r c ≠ .ok then (.discarded n, { r with history := rest })
      else (.taken n (fillReceivedData r c), { r with history := rest })
  else (.notEnabled, r)

/-- Everything that `take` can do. -/
inductive Takes (r : Reader) : TakeResult × Reader → Prop where
  | notEnabled (he : r.enabled = false) : Takes r (.notEnabled, r)
  | noData (he : r.enabled = true) (hh : r.history = []) : Takes r (.noData, r)
  | notFound (he : r.enabled = true) : Takes r (.notFound, r)
  | discarded (n : Nat) (c : CacheChange) (rest : List (Arrival CacheChange))
      (he : r.enabled = true) (hh : r.history = (n, c) :: rest) :
      Takes r (.discarded n, { r with history := rest })
  | taken (n : Nat) (c : CacheChange) (rest : List (Arrival CacheChange))
      (he : r.enabled = true) (hh : r.history = (n, c) :: rest) (hd : isDataCorrect r c = .ok) :
      Takes r (.taken n (fillReceivedData r c), { r with history := rest })

theorem take_takes (r : Reader) (found : Bool) : Takes r (r.take found) := by
  unfold take
  split
  · rename_i he
    split
    · rename_i hh
      exact .noData he hh
    · rename_i n c rest hh
      split
      · exact .notFound he
      · split
        · exact .discarded n c rest he hh
        · rename_i hd
          exact .taken n c rest he hh (by simpa using hd)
  · rename_i he
    exact .notEnabled (by simpa using he)

def remove (r : Reader) (n : Nat) : Reader :=
  { r with history := r.history.filter fun e => e.1 ≠ n }

/-- The history takes up a change. -/
def received (r : Reader) (n : Nat) (c : CacheChange) : Reader :=
  { r with history := r.history.insertIdx (r.history.length - c.place) (n, c) }

/-- The listener on a change that has been added to the history: the reader
after it, and whether it calls `on_data_available_`. -/
def onNewCacheChangeAdded (r : Reader) (n : Nat) (c : CacheChange) : Reader × Bool :=
  if !comeFromThisParticipant r c then
    if r.enabled then (r, true)
    else if !r.topic.topicQos.isReliable then (r.remove n, false)
    else (r, false)
  else (r.remove n, false)

/-- `enable`, and whether `enable_` then calls `on_data_available_`. -/
def enable (r : Reader) : Reader × Bool :=
  if !r.enabled then ({ r with enabled := true }, r.topic.topicQos.isReliable) else (r, false)

def disable (r : Reader) : Reader := { r with enabled := false }

/-- The number of every change in the history. -/
def numbers (r : Reader) : List Nat := r.history.map Prod.fst

theorem history_received (r : Reader) (n : Nat) (c : CacheChange) :
    (r.received n c).history.Perm ((n, c) :: r.history) := List.perm_insertIdx (n, c) r.history (Nat.sub_le _ _)

theorem numbers_received (r : Reader) (n : Nat) (c : CacheChange) : (r.received n c).numbers.Perm (n :: r.numbers) :=
  (history_received r n c).map Prod.fst

theorem mem_history_received {r : Reader} {n : Nat} {c : CacheChange} {e : Arrival CacheChange} :
    e ∈ (r.received n c).history ↔ e = (n, c) ∨ e ∈ r.history := by
  rw [(history_received r n c).mem_iff, List.mem_cons]

theorem mem_numbers_received {r : Reader} {n m : Nat} {c : CacheChange} :
    m ∈ (r.received n c).numbers ↔ m = n ∨ m ∈ r.numbers := by
  rw [(numbers_received r n c).mem_iff, List.mem_cons]

theorem count_numbers_received (r : Reader) (n m : Nat) (c : CacheChange) :
    (r.received n c).numbers.count m = r.numbers.count m + if n == m then 1 else 0 := by
  rw [(numbers_received r n c).count_eq, List.count_cons]

@[simp] theorem numbers_disable (r : Reader) : r.disable.numbers = r.numbers := rfl

@[simp] theorem numbers_enable (r : Reader) : r.enable.1.numbers = r.numbers := by
  simp only [enable]
  split <;> rfl

theorem count_remove_le (r : Reader) (n m : Nat) :
    (r.remove n).numbers.count m ≤ r.numbers.count m := by
  have h : (r.remove n).numbers.Sublist r.numbers := by
    simp only [numbers, remove]
    exact List.filter_sublist.map _
  exact h.count_le m

theorem count_remove_of_ne (r : Reader) {n m : Nat} (h : m ≠ n) :
    (r.remove n).numbers.count m = r.numbers.count m := by
  simp only [numbers, remove, List.count, List.countP_map, List.countP_filter]
  apply List.countP_congr
  intro e _
  simp only [Function.comp, Bool.and_eq_true, beq_iff_eq, decide_eq_true_eq]
  exact ⟨fun he => he.1, fun he => ⟨he, he ▸ h⟩⟩

end Reader

end DDSRouter
