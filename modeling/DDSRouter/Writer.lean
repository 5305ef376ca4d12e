import DDSRouter.Discovery
import DDSRouter.Reader
import Mathlib.Data.List.Lex

/-!
# RTPS writers

A `CommonWriter` takes a cache change, fills it with what a reader received,
and adds it to its history, which numbers and sends it. In a topic with
partitions or exclusive ownership a participant has a `MultiWriter`, which keeps
one `CommonWriter` for each QoS that it has been given data with.

Left open is what Fast DDS and the pool of changes answer: whether a change can
be had, which of those given back it is, and the entity id that a new RTPS writer
gets.
-/
namespace DDSRouter

open WeakOrder

namespace SpecificEndpointQoS

/-- The loop over the names of two partition lists of one size. -/
def namesLess : List String → List String → Bool
  | a :: as, b :: bs => if a < b then true else if b < a then false else namesLess as bs
  | _, _ => false

/-- `operator <`. -/
def less (a b : SpecificEndpointQoS) : Bool :=
  if a.ownershipStrength < b.ownershipStrength then true
  else if b.ownershipStrength < a.ownershipStrength then false
  else if a.partitions.length < b.partitions.length then true
  else if b.partitions.length < a.partitions.length then false
  else namesLess a.partitions b.partitions

theorem namesLess_eq {as bs : List String} (h : as.length = bs.length) :
    namesLess as bs = decide (as < bs) := by
  induction as generalizing bs with
  | nil =>
    cases bs with
    | nil => simp [namesLess]
    | cons b bs => simp at h
  | cons a as ih =>
    cases bs with
    | nil => simp at h
    | cons b bs =>
      have hi := ih (by simpa using h)
      rcases lt_trichotomy a b with hab | rfl | hba
      · simp [namesLess, hab, List.cons_lt_cons_iff]
      · simp [namesLess, hi]
      · simp [namesLess, hba, hba.not_gt, hba.ne', List.cons_lt_cons_iff]

/-- What the comparison looks at, in the order in which it does. -/
def key (q : SpecificEndpointQoS) : Nat ×ₗ Nat ×ₗ List String :=
  toLex (q.ownershipStrength.toNat, toLex (q.partitions.length, q.partitions))

theorem less_eq_key (a b : SpecificEndpointQoS) : less a b = decide (key a < key b) := by
  simp only [less, key, Prod.Lex.toLex_lt_toLex, BitVec.lt_def]
  rcases lt_trichotomy a.ownershipStrength.toNat b.ownershipStrength.toNat with hs | hs | hs
  · simp [hs]
  · rcases lt_trichotomy a.partitions.length b.partitions.length with hl | hl | hl
    · simp [hs, hl]
    · simp [hs, hl, namesLess_eq hl]
    · simp [hs, hl, hl.not_gt, hl.ne']
  · simp [hs, hs.not_gt, hs.ne']

instance : WeakOrder SpecificEndpointQoS where
  lt := less
  irrefl a := by simp [less_eq_key]
  trans {a b c} hab hbc := by
    rw [less_eq_key, decide_eq_true_eq] at hab hbc ⊢
    exact hab.trans hbc
  cotrans {a c} hac b := by
    rw [less_eq_key, decide_eq_true_eq] at hac
    rw [less_eq_key, less_eq_key, decide_eq_true_eq, decide_eq_true_eq]
    rcases lt_or_ge (key a) (key b) with h | h
    · exact .inl h
    · exact .inr (h.trans_lt hac)

instance : TotalKey SpecificEndpointQoS where
  eq_of_same {a b} h := by
    simp only [same_iff, lt, less_eq_key, decide_eq_false_iff_not, not_lt] at h
    have he : key a = key b := le_antisymm h.2 h.1
    obtain ⟨ps, os⟩ := a
    obtain ⟨pt, ot⟩ := b
    have hkey := toLex.injective he
    simp only [Prod.mk.injEq] at hkey
    have hrest := toLex.injective hkey.2
    simp only [Prod.mk.injEq] at hrest
    rw [BitVec.eq_of_toNat_eq hkey.1, hrest.2]

end SpecificEndpointQoS

/-- `DataReceived` with the QoS of the writer it came from and the block of the
payload pool that its payload is in, if it has one. -/
structure RouterData extends DataReceived where
  writerQos : SpecificEndpointQoS := {}
  block : Option Nat := none
  deriving DecidableEq, Repr

/-- A cache change of a writer. Only a `RouterCacheChange` has the field
`lastWriterGuidPrefix`. -/
structure WriterChange where
  writerGuid : Guid := Guid.unknown
  sequenceNumber : SequenceNumber := 0
  kind : ChangeKind := .alive
  instanceHandle : BitVec 128 := 0
  sourceTimestamp : Int := 0
  relatedSampleIdentity : SampleIdentity := SampleIdentity.unknown
  length : Nat := 0
  maxSize : Nat := 0
  block : Option Nat := none
  lastWriterGuidPrefix : Option GuidPrefix := none
  deriving DecidableEq, Repr

/-- A change whose payload is released with it. -/
def WriterChange.released (c : WriterChange) : WriterChange := { c with length := 0, maxSize := 0, block := none }

/-- `SelfDataFilter::is_relevant`. -/
def selfIsRelevant (c : WriterChange) (reader : Guid) : Bool := c.writerGuid.guidPrefix ≠ reader.guidPrefix

/-- `RepeaterDataFilter::is_relevant`, which has no answer for a change that is
not a `RouterCacheChange`. -/
def repeaterIsRelevant (c : WriterChange) (reader : Guid) : Option Bool :=
  if !selfIsRelevant c reader then some false
  else c.lastWriterGuidPrefix.map fun g => g ≠ reader.guidPrefix

/-- Where `new_change` gets the change from. -/
inductive NewChange where
  | unavailable
  | created
  | recycled (i : Nat)
  deriving DecidableEq, Repr

/-- `pool` holds the changes that have been given back. -/
structure CommonWriter where
  guid : Guid
  topic : DdsTopic
  repeater : Bool
  enabled : Bool := false
  pool : List WriterChange := []
  history : List WriterChange := []
  lastSequenceNumber : Nat := 0
  deriving DecidableEq, Repr

/-- What a call of `write` gives back: its code, the `sent_sequence_number` that
it sets, and the change that was added to the history. -/
structure WriteResult where
  code : ReturnCode
  sentSequenceNumber : Option SequenceNumber := none
  added : Option WriterChange := none
  deriving DecidableEq, Repr

namespace CommonWriter

/-- The depth of the topic, an `unsigned int`, stored in an `int32_t`. -/
def maximumReservedCaches (w : CommonWriter) : Int := (BitVec.ofNat 32 w.topic.topicQos.historyDepth).toInt

/-- The number of changes is compared as an `int32_t` too; none is full when the
depth is 0. -/
def isFull (w : CommonWriter) : Bool :=
  w.maximumReservedCaches ≠ 0 && (BitVec.ofNat 32 w.history.length).toInt = w.maximumReservedCaches

/-- The depth that the history was created with. -/
def depth (w : CommonWriter) : Nat := w.topic.topicQos.historyDepth % 2 ^ 32

theorem depth_lt (w : CommonWriter) : w.depth < 2 ^ 32 := Nat.mod_lt _ (by decide)

theorem isFull_eq (w : CommonWriter) :
    w.isFull = decide (w.depth ≠ 0 ∧ w.history.length % 2 ^ 32 = w.depth) := by
  have hzero : w.maximumReservedCaches = 0 ↔ w.depth = 0 := by
    rw [maximumReservedCaches, ← BitVec.toInt_zero, BitVec.toInt_inj, ← BitVec.toNat_inj]
    simp [depth]
  have hlen : (BitVec.ofNat 32 w.history.length).toInt = w.maximumReservedCaches ↔
      w.history.length % 2 ^ 32 = w.depth := by
    rw [maximumReservedCaches, BitVec.toInt_inj, ← BitVec.toNat_inj]
    simp [depth]
  simp [isFull, hzero, hlen]

/-- What the pool of the writer creates: `CacheChangePool::new_element_` for a
repeater, the plain change of Fast DDS otherwise. -/
def newElement (w : CommonWriter) : WriterChange :=
  if w.repeater then { lastWriterGuidPrefix := some 0 } else {}

/-- `data_filter_` on a change of this writer. -/
def isRelevant (w : CommonWriter) (c : WriterChange) (reader : Guid) : Option Bool :=
  if w.repeater then repeaterIsRelevant c reader else some (selfIsRelevant c reader)

/-- A change of the pool becomes one of this writer. -/
def own (w : CommonWriter) (data : RouterData) (c : WriterChange) : WriterChange :=
  { c with
    kind := .alive
    instanceHandle := if w.topic.keyed then data.instanceHandle else 0
    writerGuid := w.guid }

/-- `RTPSWriter::new_change`. -/
def newChange (w : CommonWriter) (data : RouterData) : NewChange → Option (WriterChange × CommonWriter)
  | .unavailable => none
  | .created => some (w.own data w.newElement, w)
  | .recycled i => (w.pool[i]?).map fun c => (w.own data c, { w with pool := w.pool.eraseIdx i })

/-- The payload is shared with the data only if it has length. -/
def fillToSendData (w : CommonWriter) (c : WriterChange) (data : RouterData) : WriterChange :=
  { c with
    lastWriterGuidPrefix :=
      if w.repeater then c.lastWriterGuidPrefix.map fun _ => data.sourceGuid.guidPrefix
      else c.lastWriterGuidPrefix
    instanceHandle := if w.topic.keyed then data.instanceHandle else c.instanceHandle
    length := if data.length > 0 then data.length else c.length
    maxSize := if data.length > 0 then data.maxSize else c.maxSize
    block := if data.length > 0 then data.block else c.block
    kind := data.kind }

/-- `WriterHistory::add_change`: the change gets the next number, unless the
history is full. -/
def addChange (w : CommonWriter) (c : WriterChange) (data : RouterData) : Option (WriterChange × CommonWriter) :=
  if w.isFull then none
  else
    let c' := { c with
      sequenceNumber := w.lastSequenceNumber + 1
      sourceTimestamp := data.sourceTimestamp
      relatedSampleIdentity := data.relatedSampleIdentity }
    some (c', { w with history := w.history ++ [c'], lastSequenceNumber := w.lastSequenceNumber + 1 })

/-- `remove_change` of the change that was added last. -/
def removeLast (w : CommonWriter) : CommonWriter :=
  { w with history := w.history.dropLast, pool := w.pool ++ w.history.getLast?.toList.map WriterChange.released }

/-- `remove_min_change`: the first change has the lowest number. -/
def removeMinChange (w : CommonWriter) : CommonWriter :=
  { w with history := w.history.tail, pool := w.pool ++ w.history.head?.toList.map WriterChange.released }

/-- `write_`. The answer of `add_change` is not looked at. -/
def writeNts (w : CommonWriter) (data : RouterData) (o : NewChange) : WriteResult × CommonWriter :=
  match w.newChange data o with
  | none => ({ code := .error }, w)
  | some (c, w₁) =>
    match w₁.addChange (w₁.fillToSendData c data) data with
    | none =>
      ({ code := .ok, sentSequenceNumber := some SampleIdentity.unknown.sequenceNumber },
        if !w₁.topic.topicQos.isReliable then w₁
        else if w₁.isFull then w₁.removeMinChange else w₁)
    | some (c', w₂) =>
      ({ code := .ok, sentSequenceNumber := some c'.sequenceNumber, added := some c' },
        if !w₂.topic.topicQos.isReliable then w₂.removeLast
        else if w₂.isFull then w₂.removeMinChange else w₂)

/-- `BaseWriter::write`. -/
def write (w : CommonWriter) (data : RouterData) (o : NewChange) : WriteResult × CommonWriter :=
  if w.enabled then w.writeNts data o else ({ code := .notEnabled }, w)

def enable (w : CommonWriter) : CommonWriter := { w with enabled := true }

def disable (w : CommonWriter) : CommonWriter := { w with enabled := false }

/-- The change at a place of the history is removed, with its payload. -/
def removeChange (w : CommonWriter) (i : Nat) : CommonWriter :=
  { w with history := w.history.eraseIdx i, pool := w.pool ++ (w.history[i]?).toList.map WriterChange.released }

end CommonWriter

/-! What a call of `write` does to a writer whose history has room. -/

namespace CommonWriter

/-- A change can be had. -/
def available (w : CommonWriter) : NewChange → Bool
  | .unavailable => false
  | .created => true
  | .recycled i => decide (i < w.pool.length)

/-- The history has room for one change, the changes of a repeater are
`RouterCacheChange`s, and those given back hold no payload. -/
structure Fit (w : CommonWriter) : Prop where
  room : 0 < w.depth → w.history.length < w.depth
  kind : ∀ c ∈ w.pool ++ w.history, c.lastWriterGuidPrefix.isSome = w.repeater
  pool : ∀ c ∈ w.pool, c.length = 0 ∧ c.maxSize = 0 ∧ c.block = none

/-- The writer after the change `c` has been sent. -/
structure Sent (w : CommonWriter) (data : RouterData) (c : WriterChange) (w' : CommonWriter) : Prop where
  writerGuid : c.writerGuid = w.guid
  number : c.sequenceNumber = w.lastSequenceNumber + 1
  origin : c.lastWriterGuidPrefix = if w.repeater then some data.sourceGuid.guidPrefix else none
  payload : c.length = data.length ∧ c.block = if data.length > 0 then data.block else none
  guid : w'.guid = w.guid
  topic : w'.topic = w.topic
  repeater : w'.repeater = w.repeater
  enabled : w'.enabled = w.enabled
  last : w'.lastSequenceNumber = w.lastSequenceNumber + 1
  history : w'.history = w.history ++ [c] ∨ w'.history = w.history ∨ w'.history = (w.history ++ [c]).tail

variable {w : CommonWriter} {data : RouterData} {o : NewChange}

theorem fit_init (guid : Guid) (topic : DdsTopic) (repeater enabled : Bool) :
    Fit { guid := guid, topic := topic, repeater := repeater, enabled := enabled } :=
  ⟨fun h => h, by simp, by simp⟩

theorem not_isFull (h : w.Fit) : w.isFull = false := by
  rw [isFull_eq, decide_eq_false_iff_not]
  rintro ⟨hd, heq⟩
  have hroom := h.room (Nat.pos_of_ne_zero hd)
  rw [Nat.mod_eq_of_lt (hroom.trans w.depth_lt)] at heq
  omega

/-- Of the changes of a writer nothing but the kind and the payload is known. -/
theorem newChange_some (hfit : w.Fit) (ha : w.available o = true) (data : RouterData) :
    ∃ c pool, w.newChange data o = some (c, { w with pool := pool }) ∧ c.writerGuid = w.guid ∧
      c.lastWriterGuidPrefix.isSome = w.repeater ∧ c.length = 0 ∧ c.block = none ∧
      Fit { w with pool := pool } := by
  cases o with
  | unavailable => cases ha
  | created =>
    refine ⟨_, w.pool, rfl, rfl, ?_, ?_, ?_, hfit⟩
    all_goals
      cases hr : w.repeater with
      | true => simp [own, newElement, hr]
      | false => simp [own, newElement, hr]
  | recycled i =>
    have hi : i < w.pool.length := by simpa [available] using ha
    have hmem : w.pool[i] ∈ w.pool := List.getElem_mem hi
    have hpool := hfit.pool _ hmem
    refine ⟨w.own data w.pool[i], w.pool.eraseIdx i, ?_, rfl,
      hfit.kind w.pool[i] (List.mem_append_left _ hmem), hpool.1, hpool.2.2, hfit.room, ?_, ?_⟩
    · simp only [newChange, List.getElem?_eq_getElem hi, Option.map_some]
    · intro c hc
      rcases List.mem_append.mp hc with hc | hc
      · exact hfit.kind c (List.mem_append_left _ (List.mem_of_mem_eraseIdx hc))
      · exact hfit.kind c (List.mem_append_right _ hc)
    · exact fun c hc => hfit.pool c (List.mem_of_mem_eraseIdx hc)

theorem newChange_none (ha : w.available o = false) : w.newChange data o = none := by
  cases o with
  | unavailable => rfl
  | created => cases ha
  | recycled i =>
    have hi : w.pool.length ≤ i := by simpa [available] using ha
    simp [newChange, List.getElem?_eq_none hi]

/-- A removal keeps the changes in order; there has to be room afterwards. -/
theorem fit_of_removed (hkind : ∀ c ∈ w.pool ++ w.history, c.lastWriterGuidPrefix.isSome = w.repeater)
    (hpool : ∀ c ∈ w.pool, c.length = 0 ∧ c.maxSize = 0 ∧ c.block = none) (i : Nat)
    (hroom : 0 < w.depth → (w.history.eraseIdx i).length < w.depth) :
    (w.removeChange i).Fit := by
  refine ⟨hroom, fun c hc => ?_, fun c hc => ?_⟩
  · simp only [removeChange, List.append_assoc, List.mem_append, List.mem_map, Option.mem_toList] at hc
    rcases hc with hc | ⟨c₀, hc₀, rfl⟩ | hc
    · exact hkind c (List.mem_append_left _ hc)
    · exact hkind c₀ (List.mem_append_right _ (List.mem_of_getElem? hc₀))
    · exact hkind c (List.mem_append_right _ (List.mem_of_mem_eraseIdx hc))
  · simp only [removeChange, List.mem_append, List.mem_map, Option.mem_toList] at hc
    rcases hc with hc | ⟨c₀, -, rfl⟩
    · exact hpool c hc
    · exact ⟨rfl, rfl, rfl⟩

theorem fit_removeChange (h : w.Fit) (i : Nat) : (w.removeChange i).Fit := by
  refine fit_of_removed h.kind h.pool i fun hm => ?_
  have hroom := h.room hm
  have hle : (w.history.eraseIdx i).length ≤ w.history.length := List.length_eraseIdx_le w.history i
  omega

/-- The two removals of `write_` are removals at a place. -/
theorem removeMinChange_eq (w : CommonWriter) : w.removeMinChange = w.removeChange 0 := by
  obtain ⟨guid, topic, repeater, enabled, pool, history, last⟩ := w
  cases history with
  | nil => rfl
  | cons c cs => rfl

theorem removeLast_append {c : WriterChange} {cs : List WriterChange} (h : w.history = cs ++ [c]) :
    w.removeLast = w.removeChange cs.length := by
  have hlast : w.history.getLast? = w.history[cs.length]? := by simp [h]
  have hinit : w.history.dropLast = w.history.eraseIdx cs.length := by
    simp [h, List.eraseIdx_append_of_length_le]
  simp only [removeLast, removeChange, hlast, hinit]

/-- The end of `write_`: what a writer with a change more than fits does with it. -/
def trim (w : CommonWriter) : CommonWriter :=
  if !w.topic.topicQos.isReliable then w.removeLast else if w.isFull then w.removeMinChange else w

/-- At most one change leaves the history again, and then there is room. -/
theorem fit_trim {c : WriterChange} {cs : List WriterChange} (h : w.history = cs ++ [c])
    (hroom : 0 < w.depth → cs.length < w.depth)
    (hkind : ∀ c ∈ w.pool ++ w.history, c.lastWriterGuidPrefix.isSome = w.repeater)
    (hpool : ∀ c ∈ w.pool, c.length = 0 ∧ c.maxSize = 0 ∧ c.block = none) :
    w.trim.Fit ∧ (w.trim.history = cs ++ [c] ∨ w.trim.history = cs ∨ w.trim.history = (cs ++ [c]).tail) ∧
      w.trim = { w with pool := w.trim.pool, history := w.trim.history } := by
  unfold trim
  split
  · have herase : w.history.eraseIdx cs.length = cs := by
      simp [h, List.eraseIdx_append_of_length_le]
    rw [removeLast_append h]
    refine ⟨fit_of_removed hkind hpool _ ?_, .inr (.inl herase), rfl⟩
    rw [herase]
    exact hroom
  · split
    · have herase : w.history.eraseIdx 0 = (cs ++ [c]).tail := by simp [h]
      rw [removeMinChange_eq]
      refine ⟨fit_of_removed hkind hpool 0 fun hm => ?_, .inr (.inr herase), rfl⟩
      have hlen : ((cs ++ [c]).tail).length = cs.length := by simp
      rw [herase, hlen]
      exact hroom hm
    · rename_i hfull
      refine ⟨⟨fun hm => ?_, hkind, hpool⟩, .inl h, rfl⟩
      have hlt := hroom hm
      have hne : w.history.length ≠ w.depth := by
        intro heq
        apply hfull
        rw [isFull_eq, decide_eq_true_eq, heq]
        exact ⟨hm.ne', Nat.mod_eq_of_lt w.depth_lt⟩
      simp only [h, List.length_append, List.length_cons, List.length_nil] at hne ⊢
      omega

/-- A change is added to a history that has room; it is the data with the next
number, whatever change the pool gave. -/
theorem write_eq_trim (hfit : w.Fit) (he : w.enabled = true) (ha : w.available o = true) (data : RouterData) :
    ∃ c pool, w.write data o = ({ code := .ok, sentSequenceNumber := some c.sequenceNumber, added := some c },
        trim { w with
          pool := pool, history := w.history ++ [c], lastSequenceNumber := w.lastSequenceNumber + 1 }) ∧
      Fit { w with pool := pool } ∧ c.writerGuid = w.guid ∧ c.sequenceNumber = w.lastSequenceNumber + 1 ∧
      (c.lastWriterGuidPrefix = if w.repeater then some data.sourceGuid.guidPrefix else none) ∧
      c.length = data.length ∧ c.block = if data.length > 0 then data.block else none := by
  obtain ⟨c₀, pool, hnew, hguid, hkind, hlen, hblock, hfit₁⟩ := newChange_some hfit ha data
  let c : WriterChange := { w.fillToSendData c₀ data with
    sequenceNumber := w.lastSequenceNumber + 1
    sourceTimestamp := data.sourceTimestamp
    relatedSampleIdentity := data.relatedSampleIdentity }
  let w₂ : CommonWriter := { w with
    pool := pool, history := w.history ++ [c], lastSequenceNumber := w.lastSequenceNumber + 1 }
  have hadd : addChange { w with pool := pool } (w.fillToSendData c₀ data) data = some (c, w₂) := by
    simp [addChange, not_isFull hfit₁, c, w₂]
  have hwrite : w.write data o =
      ({ code := .ok, sentSequenceNumber := some c.sequenceNumber, added := some c }, w₂.trim) := by
    have hfill : fillToSendData { w with pool := pool } c₀ data = w.fillToSendData c₀ data := rfl
    simp only [write, if_pos he, writeNts, hnew, hfill, hadd, trim]
  have horigin : c.lastWriterGuidPrefix = if w.repeater then some data.sourceGuid.guidPrefix else none := by
    simp only [c, fillToSendData]
    cases hr : w.repeater with
    | true =>
      rw [hr, Option.isSome_iff_exists] at hkind
      obtain ⟨g, hg⟩ := hkind
      simp [hg]
    | false => simpa [hr] using hkind
  refine ⟨c, pool, hwrite, hfit₁, hguid, rfl, horigin, ?_, ?_⟩
  · simp only [c, fillToSendData, hlen]
    split <;> omega
  · simp only [c, fillToSendData, hblock]

theorem write_sent (hfit : w.Fit) (he : w.enabled = true) (ha : w.available o = true) (data : RouterData) :
    ∃ c w', w.write data o = ({ code := .ok, sentSequenceNumber := some c.sequenceNumber, added := some c }, w') ∧
      Sent w data c w' ∧ w'.Fit := by
  obtain ⟨c, pool, hwrite, hfit₁, hguid, hnum, horigin, hlen, hblock⟩ := write_eq_trim hfit he ha data
  let w₂ : CommonWriter := { w with
    pool := pool, history := w.history ++ [c], lastSequenceNumber := w.lastSequenceNumber + 1 }
  have hkind₂ : ∀ c' ∈ w₂.pool ++ w₂.history, c'.lastWriterGuidPrefix.isSome = w₂.repeater := by
    intro c' hc'
    simp only [w₂, ← List.append_assoc, List.mem_append, List.mem_singleton] at hc'
    rcases hc' with hc' | rfl
    · exact hfit₁.kind c' (List.mem_append.mpr hc')
    · rw [horigin]
      cases w.repeater <;> rfl
  obtain ⟨hfit₂, hhist, hsame⟩ := fit_trim (w := w₂) rfl hfit₁.room hkind₂ hfit₁.pool
  refine ⟨c, w₂.trim, hwrite, ⟨hguid, hnum, horigin, ⟨hlen, hblock⟩, ?_, ?_, ?_, ?_, ?_, hhist⟩, hfit₂⟩
  all_goals rw [hsame]

theorem write_failed (h : w.enabled = false ∨ w.available o = false) (data : RouterData) :
    (w.write data o).1.code ≠ .ok ∧ (w.write data o).1.sentSequenceNumber = none ∧
      (w.write data o).1.added = none ∧ (w.write data o).2 = w := by
  cases he : w.enabled with
  | false => simp [write, he]
  | true =>
    have ha : w.available o = false := by simpa [he] using h
    simp [write, he, writeNts, newChange_none ha]

end CommonWriter

/-- What is open in one call of `write`: the change it gets and, when an inner
writer has to be created, whether that works and its entity id. -/
structure WriteOutcome where
  change : NewChange := .created
  created : Bool := true
  entityId : EntityId := 0
  deriving DecidableEq, Repr

/-- `writersMap` has one writer for each QoS. -/
structure MultiWriter where
  guidPrefix : GuidPrefix
  topic : DdsTopic
  repeater : Bool
  enabled : Bool := false
  writersMap : OrdMap SpecificEndpointQoS CommonWriter := OrdMap.empty

namespace MultiWriter

/-- `create_writer_nts_`, enabled as `get_writer_or_create_` leaves it. -/
def createWriterNts (m : MultiWriter) (entityId : EntityId) : CommonWriter :=
  { guid := ⟨m.guidPrefix, entityId⟩, topic := m.topic, repeater := m.repeater, enabled := m.enabled }

/-- The writer of the QoS; a new one that cannot be created ends the process. -/
def getWriterOrCreate (m : MultiWriter) (qos : SpecificEndpointQoS) (o : WriteOutcome) : Option CommonWriter :=
  match m.writersMap.find qos with
  | some w => some w
  | none => if o.created then some (m.createWriterNts o.entityId) else none

/-- `write` with `write_`: the inner writer of the QoS of the data writes. -/
def write (m : MultiWriter) (data : RouterData) (o : WriteOutcome) : Option (WriteResult × MultiWriter) :=
  if m.enabled then
    (m.getWriterOrCreate data.writerQos o).map fun w =>
      let r := w.write data o.change
      (r.1, { m with writersMap := m.writersMap.set data.writerQos r.2 })
  else some ({ code := .notEnabled }, m)

/-- The same change to every inner writer. -/
def mapWriters (m : MultiWriter) (f : CommonWriter → CommonWriter) : OrdMap SpecificEndpointQoS CommonWriter :=
  m.writersMap.mapValues f

def enable (m : MultiWriter) : MultiWriter :=
  if m.enabled then m else { m with enabled := true, writersMap := m.mapWriters CommonWriter.enable }

def disable (m : MultiWriter) : MultiWriter :=
  if m.enabled then { m with enabled := false, writersMap := m.mapWriters CommonWriter.disable } else m

end MultiWriter

/-- What `create_writer` of an RTPS participant gives back. -/
inductive IWriter where
  | simple (w : CommonWriter)
  | multi (m : MultiWriter)

/-- The fields of a `CommonParticipant` that its endpoints are made with. -/
structure CommonParticipant where
  id : ParticipantId
  guidPrefix : GuidPrefix
  isRepeater : Bool
  deriving DecidableEq, Repr

def CommonParticipant.createWriter (p : CommonParticipant) (topic : DdsTopic) (entityId : EntityId) : IWriter :=
  if topic.topicQos.hasPartitions || topic.topicQos.hasOwnership then
    .multi { guidPrefix := p.guidPrefix, topic := topic, repeater := p.isRepeater }
  else .simple { guid := ⟨p.guidPrefix, entityId⟩, topic := topic, repeater := p.isRepeater }

namespace IWriter

def write (w : IWriter) (data : RouterData) (o : WriteOutcome) : Option (WriteResult × IWriter) :=
  match w with
  | .simple w => some ((w.write data o.change).1, .simple (w.write data o.change).2)
  | .multi m => (m.write data o).map fun r => (r.1, .multi r.2)

def enable : IWriter → IWriter
  | .simple w => .simple w.enable
  | .multi m => .multi m.enable

def disable : IWriter → IWriter
  | .simple w => .simple w.disable
  | .multi m => .multi m.disable

def enabled : IWriter → Bool
  | .simple w => w.enabled
  | .multi m => m.enabled

/-- The RTPS writer that data with the QoS would go to, if there is one yet. -/
def inner : IWriter → SpecificEndpointQoS → Option CommonWriter
  | .simple w, _ => some w
  | .multi m, qos => m.writersMap.find qos

/-- A change leaves the history of an RTPS writer. -/
def removeChange (w : IWriter) (qos : SpecificEndpointQoS) (i : Nat) : IWriter :=
  match w with
  | .simple w => .simple (w.removeChange i)
  | .multi m =>
    match m.writersMap.find qos with
    | some w => .multi { m with writersMap := m.writersMap.set qos (w.removeChange i) }
    | none => .multi m

/-- The RTPS writer that the data goes to, created if it has to be. -/
def writerFor (w : IWriter) (qos : SpecificEndpointQoS) (o : WriteOutcome) : Option CommonWriter :=
  match w with
  | .simple w => some w
  | .multi m => m.getWriterOrCreate qos o

/-- The RTPS writer of the QoS replaced. -/
def put (w : IWriter) (qos : SpecificEndpointQoS) (cw : CommonWriter) : IWriter :=
  match w with
  | .simple _ => .simple cw
  | .multi m => .multi { m with writersMap := m.writersMap.set qos cw }

/-- Data of the two kinds of QoS goes through one RTPS writer. -/
def shares (w : IWriter) (q qos : SpecificEndpointQoS) : Bool :=
  match w with
  | .simple _ => true
  | .multi _ => decide (q = qos)

/-- What all RTPS writers behind the interface have in common. -/
structure Fit (p : CommonParticipant) (w : IWriter) : Prop where
  created : ∀ m, w = .multi m → m.guidPrefix = p.guidPrefix ∧ m.repeater = p.isRepeater
  inner : ∀ qos cw, w.inner qos = some cw →
    cw.Fit ∧ cw.guid.guidPrefix = p.guidPrefix ∧ cw.repeater = p.isRepeater ∧ cw.enabled = w.enabled

theorem fit_createWriter (p : CommonParticipant) (topic : DdsTopic) (entityId : EntityId) :
    Fit p (p.createWriter topic entityId) := by
  unfold CommonParticipant.createWriter
  split
  · refine ⟨fun m hm => ?_, fun qos cw h => ?_⟩
    · cases hm
      exact ⟨rfl, rfl⟩
    · cases h
  · refine ⟨fun m hm => ?_, fun qos cw h => ?_⟩
    · cases hm
    · cases h
      exact ⟨CommonWriter.fit_init _ _ _ _, rfl, rfl, rfl⟩

section Spec

variable {p : CommonParticipant} {w w' : IWriter} {qos : SpecificEndpointQoS}

theorem inner_put (w : IWriter) (qos q : SpecificEndpointQoS) (cw : CommonWriter) :
    (w.put qos cw).inner q = if w.shares q qos then some cw else w.inner q := by
  cases w with
  | simple w => rfl
  | multi m => simp [put, inner, shares, same_iff_eq]

theorem enabled_put (w : IWriter) (qos : SpecificEndpointQoS) (cw : CommonWriter)
    (h : cw.enabled = w.enabled) : (w.put qos cw).enabled = w.enabled := by
  cases w with
  | simple w => exact h
  | multi m => rfl

theorem fit_put (h : Fit p w) {cw : CommonWriter} (hfit : cw.Fit) (hguid : cw.guid.guidPrefix = p.guidPrefix)
    (hrep : cw.repeater = p.isRepeater) (hen : cw.enabled = w.enabled) : Fit p (w.put qos cw) := by
  refine ⟨fun m hm => ?_, fun q cw' hq => ?_⟩
  · cases w with
    | simple w => cases hm
    | multi m₀ =>
      cases hm
      exact h.created m₀ rfl
  · rw [enabled_put w qos cw hen]
    rw [inner_put] at hq
    split at hq
    · cases hq
      exact ⟨hfit, hguid, hrep, hen⟩
    · exact h.inner q cw' hq

/-- The chosen writer is the one there was, or a new one. -/
theorem writerFor_cases {o : WriteOutcome} {cw : CommonWriter} (h : Fit p w) (hw : w.writerFor qos o = some cw) :
    (w.inner qos = some cw ∨ w.inner qos = none ∧ cw.lastSequenceNumber = 0) ∧
      cw.Fit ∧ cw.guid.guidPrefix = p.guidPrefix ∧ cw.repeater = p.isRepeater ∧ cw.enabled = w.enabled := by
  cases w with
  | simple w =>
    cases hw
    exact ⟨.inl rfl, h.inner qos cw rfl⟩
  | multi m =>
    obtain ⟨hpre, hrep⟩ := h.created m rfl
    simp only [writerFor, MultiWriter.getWriterOrCreate] at hw
    split at hw
    · rename_i cw₀ hfind
      cases hw
      exact ⟨.inl hfind, h.inner qos cw hfind⟩
    · rename_i hfind
      split at hw
      · cases hw
        exact ⟨.inr ⟨hfind, rfl⟩, CommonWriter.fit_init _ _ _ _, hpre, hrep, rfl⟩
      · cases hw

/-- Both writers write in the same way: nothing unless enabled, else through
the RTPS writer of the QoS, which is put back. -/
theorem write_some {data : RouterData} {o : WriteOutcome} {r : WriteResult}
    (hw : w.write data o = some (r, w')) :
    (w.enabled = false ∧ r = { code := .notEnabled } ∧ w' = w) ∨
      (w.enabled = true ∧ ∃ cw, w.writerFor data.writerQos o = some cw ∧ r = (cw.write data o.change).1 ∧
        w' = w.put data.writerQos (cw.write data o.change).2) := by
  cases w with
  | simple w =>
    simp only [write, Option.some.injEq, Prod.mk.injEq] at hw
    obtain ⟨rfl, rfl⟩ := hw
    cases he : w.enabled with
    | false =>
      left
      simp [enabled, he, CommonWriter.write]
    | true => exact .inr ⟨he, w, rfl, rfl, rfl⟩
  | multi m =>
    simp only [write, MultiWriter.write, Option.map_eq_some_iff] at hw
    obtain ⟨⟨r', m'⟩, hm, hr⟩ := hw
    cases hr
    split at hm
    · rename_i he
      simp only [Option.map_eq_some_iff] at hm
      obtain ⟨cw, hcw, hr⟩ := hm
      cases hr
      exact .inr ⟨he, cw, hcw, rfl, rfl⟩
    · rename_i he
      cases hm
      exact .inl ⟨by simpa [enabled] using he, rfl, rfl⟩

theorem inner_enable (h : Fit p w) (q : SpecificEndpointQoS) :
    w.enable.inner q = (w.inner q).map CommonWriter.enable := by
  cases w with
  | simple w => rfl
  | multi m =>
    simp only [enable, MultiWriter.enable, inner]
    split
    · rename_i he
      cases hq : m.writersMap.find q with
      | none => rfl
      | some cw =>
        have hcw : cw.enabled = true := (h.inner q cw hq).2.2.2.trans he
        simp [CommonWriter.enable, ← hcw]
    · exact OrdMap.find_mapValues _ _ _

theorem inner_disable (h : Fit p w) (q : SpecificEndpointQoS) :
    w.disable.inner q = (w.inner q).map CommonWriter.disable := by
  cases w with
  | simple w => rfl
  | multi m =>
    simp only [disable, MultiWriter.disable, inner]
    split
    · exact OrdMap.find_mapValues _ _ _
    · rename_i he
      cases hq : m.writersMap.find q with
      | none => rfl
      | some cw =>
        have hcw : cw.enabled = false := (h.inner q cw hq).2.2.2.trans (by simpa [enabled] using he)
        simp [CommonWriter.disable, ← hcw]

theorem inner_removeChange (w : IWriter) (qos q : SpecificEndpointQoS) (i : Nat) :
    (w.removeChange qos i).inner q =
      if w.shares q qos then (w.inner q).map fun cw => cw.removeChange i else w.inner q := by
  cases w with
  | simple w => rfl
  | multi m =>
    simp only [shares, decide_eq_true_eq]
    cases hfind : m.writersMap.find qos with
    | some cw =>
      simp only [removeChange, hfind, inner, OrdMap.find_set, same_iff_eq]
      split
      · rename_i hq
        rw [hq, hfind, Option.map_some]
      · rfl
    | none =>
      simp only [removeChange, hfind, inner]
      split
      · rename_i hq
        rw [hq, hfind, Option.map_none]
      · rfl

theorem enabled_enable (w : IWriter) : w.enable.enabled = true := by
  cases w with
  | simple w => rfl
  | multi m =>
    simp only [enable, MultiWriter.enable, enabled]
    split
    · rename_i h
      exact h
    · rfl

theorem enabled_disable (w : IWriter) : w.disable.enabled = false := by
  cases w with
  | simple w => rfl
  | multi m =>
    simp only [disable, MultiWriter.disable, enabled]
    split
    · rfl
    · rename_i h
      simpa using h

theorem enabled_removeChange (w : IWriter) (qos : SpecificEndpointQoS) (i : Nat) :
    (w.removeChange qos i).enabled = w.enabled := by
  cases w with
  | simple w => rfl
  | multi m =>
    simp only [removeChange]
    split <;> rfl

/-- The writers that are created later have the values of the participant. -/
def kindOf : IWriter → Option (GuidPrefix × Bool)
  | .simple _ => none
  | .multi m => some (m.guidPrefix, m.repeater)

theorem fit_of_kindOf (h : Fit p w) (hk : w'.kindOf = w.kindOf)
    (hinner : ∀ qos cw, w'.inner qos = some cw →
      cw.Fit ∧ cw.guid.guidPrefix = p.guidPrefix ∧ cw.repeater = p.isRepeater ∧ cw.enabled = w'.enabled) :
    Fit p w' := by
  refine ⟨fun m hm => ?_, hinner⟩
  subst hm
  cases w with
  | simple w => cases hk
  | multi m₀ =>
    simp only [kindOf, Option.some.injEq, Prod.mk.injEq] at hk
    rw [hk.1, hk.2]
    exact h.created m₀ rfl

theorem fit_enable (h : Fit p w) : Fit p w.enable := by
  refine fit_of_kindOf h ?_ fun qos cw hcw => ?_
  · cases w with
    | simple w => rfl
    | multi m =>
      simp only [enable, MultiWriter.enable, kindOf]
      split <;> rfl
  · rw [inner_enable h, Option.map_eq_some_iff] at hcw
    obtain ⟨cw₀, hcw₀, rfl⟩ := hcw
    obtain ⟨hfit, hguid, hrep, -⟩ := h.inner qos cw₀ hcw₀
    exact ⟨⟨hfit.room, hfit.kind, hfit.pool⟩, hguid, hrep, (enabled_enable w).symm⟩

theorem fit_disable (h : Fit p w) : Fit p w.disable := by
  refine fit_of_kindOf h ?_ fun qos cw hcw => ?_
  · cases w with
    | simple w => rfl
    | multi m =>
      simp only [disable, MultiWriter.disable, kindOf]
      split <;> rfl
  · rw [inner_disable h, Option.map_eq_some_iff] at hcw
    obtain ⟨cw₀, hcw₀, rfl⟩ := hcw
    obtain ⟨hfit, hguid, hrep, -⟩ := h.inner qos cw₀ hcw₀
    exact ⟨⟨hfit.room, hfit.kind, hfit.pool⟩, hguid, hrep, (enabled_disable w).symm⟩

theorem fit_removeChange (h : Fit p w) (qos : SpecificEndpointQoS) (i : Nat) : Fit p (w.removeChange qos i) := by
  refine fit_of_kindOf h ?_ fun q cw hcw => ?_
  · cases w with
    | simple w => rfl
    | multi m =>
      simp only [removeChange]
      split <;> rfl
  · rw [enabled_removeChange]
    rw [inner_removeChange] at hcw
    split at hcw
    · rw [Option.map_eq_some_iff] at hcw
      obtain ⟨cw₀, hcw₀, rfl⟩ := hcw
      obtain ⟨hfit, hrest⟩ := h.inner q cw₀ hcw₀
      exact ⟨CommonWriter.fit_removeChange hfit i, hrest⟩
    · exact h.inner q cw hcw

/-- A write that does not end the process keeps what the writers have in
common, and sends at most one change, through the RTPS writer of the QoS. -/
theorem write_cases {data : RouterData} {o : WriteOutcome} {r : WriteResult} (h : Fit p w)
    (hw : w.write data o = some (r, w')) :
    Fit p w' ∧
      ((r.code ≠ .ok ∧ r.sentSequenceNumber = none ∧ r.added = none ∧
          (w' = w ∨ ∃ cw, w.writerFor data.writerQos o = some cw ∧ w' = w.put data.writerQos cw)) ∨
        ∃ cw c cw', w.writerFor data.writerQos o = some cw ∧ cw.Sent data c cw' ∧
          r = { code := .ok, sentSequenceNumber := some c.sequenceNumber, added := some c } ∧
          w' = w.put data.writerQos cw') := by
  rcases write_some hw with ⟨-, rfl, rfl⟩ | ⟨he, cw, hcw, rfl, rfl⟩
  · exact ⟨h, .inl ⟨by simp, rfl, rfl, .inl rfl⟩⟩
  · obtain ⟨-, hfit, hguid, hrep, hen⟩ := writerFor_cases h hcw
    cases ha : cw.available o.change with
    | true =>
      obtain ⟨c, cw', hwrite, hsent, hfit'⟩ := CommonWriter.write_sent hfit (hen.trans he) ha data
      rw [hwrite]
      refine ⟨fit_put h hfit' ?_ ?_ ?_, .inr ⟨cw, c, cw', hcw, hsent, rfl, rfl⟩⟩
      · rw [hsent.guid, hguid]
      · rw [hsent.repeater, hrep]
      · rw [hsent.enabled, hen]
    | false =>
      obtain ⟨hcode, hseq, hadded, hsame⟩ := CommonWriter.write_failed (.inr ha) data
      rw [hsame]
      exact ⟨fit_put h hfit hguid hrep hen, .inl ⟨hcode, hseq, hadded, .inr ⟨cw, hcw, rfl⟩⟩⟩

end Spec

end IWriter

end DDSRouter
