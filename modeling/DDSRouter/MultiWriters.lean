import DDSRouter.Writer
import DDSRouter.Lib.Runs

/-!
# The inner writers of a `MultiWriter`

A `MultiWriter` in detail: its inner writers keep the QoS that they were created
with, `operator <` of the QoS is the code's loop over the names with its indices,
and what Fast DDS gives as the size of a partition list is a parameter. Every
sample goes out through the one inner writer of its QoS, in every run of
`enable`, `disable` and `write`.
-/
namespace DDSRouter

namespace Dispatch

open WeakOrder

/-- `PartitionQosPolicy::size()` as a function of the names. Lists of one size
have as many names; in Fast DDS it is their number. -/
structure PartitionSize where
  size : List String → Nat
  length_eq : ∀ {as bs : List String}, size as = size bs → as.length = bs.length

def PartitionSize.count : PartitionSize := ⟨List.length, id⟩

/-- The loop of `operator <` over the names, which has no answer when it reads
past the end of the other list. -/
def namesLoop : List String → List String → Option Bool
  | [], _ => some false
  | _ :: _, [] => none
  | a :: as, b :: bs => if a < b then some true else if b < a then some false else namesLoop as bs

/-- `SpecificEndpointQoS::operator <`. -/
def less (sz : PartitionSize) (a b : SpecificEndpointQoS) : Option Bool :=
  if a.ownershipStrength < b.ownershipStrength then some true
  else if b.ownershipStrength < a.ownershipStrength then some false
  else if sz.size a.partitions < sz.size b.partitions then some true
  else if sz.size b.partitions < sz.size a.partitions then some false
  else namesLoop a.partitions b.partitions

theorem namesLoop_eq {as bs : List String} (h : as.length = bs.length) :
    namesLoop as bs = some (decide (as < bs)) := by
  rw [← SpecificEndpointQoS.namesLess_eq h]
  induction as generalizing bs with
  | nil => rfl
  | cons a as ih =>
    cases bs with
    | nil => simp at h
    | cons b bs =>
      simp only [namesLoop, SpecificEndpointQoS.namesLess, ih (by simpa using h)]
      split
      · rfl
      · split <;> rfl

/-- What `operator <` looks at, in the order in which it does. -/
def key (sz : PartitionSize) (q : SpecificEndpointQoS) : Nat ×ₗ Nat ×ₗ List String :=
  toLex (q.ownershipStrength.toNat, toLex (sz.size q.partitions, q.partitions))

/-- The names are compared for lists of one size only, so no index is past the end. -/
theorem less_eq_key (sz : PartitionSize) (a b : SpecificEndpointQoS) :
    less sz a b = some (decide (key sz a < key sz b)) := by
  simp only [less, key, Prod.Lex.toLex_lt_toLex, BitVec.lt_def]
  rcases lt_trichotomy a.ownershipStrength.toNat b.ownershipStrength.toNat with hs | hs | hs
  · simp [hs]
  · rcases lt_trichotomy (sz.size a.partitions) (sz.size b.partitions) with hl | hl | hl
    · simp [hs, hl]
    · simp [hs, hl, namesLoop_eq (sz.length_eq hl)]
    · simp [hs, hl, hl.not_gt, hl.ne']
  · simp [hs, hs.not_gt, hs.ne']

/-- With the number of names as the size it is the order of `SpecificEndpointQoS`. -/
theorem less_count (a b : SpecificEndpointQoS) : less PartitionSize.count a b = some (SpecificEndpointQoS.less a b) := by
  rw [less_eq_key, SpecificEndpointQoS.less_eq_key]
  rfl

theorem key_injective (sz : PartitionSize) : Function.Injective (key sz) := by
  intro a b h
  obtain ⟨ps, os⟩ := a
  obtain ⟨pt, ot⟩ := b
  have hkey := toLex.injective h
  simp only [Prod.mk.injEq] at hkey
  have hrest := toLex.injective hkey.2
  simp only [Prod.mk.injEq] at hrest
  rw [BitVec.eq_of_toNat_eq hkey.1, hrest.2]

/-- A QoS as a key of the map of inner writers. -/
structure QosKey (sz : PartitionSize) where
  qos : SpecificEndpointQoS

variable {sz : PartitionSize}

instance : WeakOrder (QosKey sz) where
  lt a b := (less sz a.qos b.qos).getD false
  irrefl a := by simp [less_eq_key]
  trans {a b c} hab hbc := by
    rw [less_eq_key, Option.getD_some, decide_eq_true_eq] at hab hbc ⊢
    exact hab.trans hbc
  cotrans {a c} hac b := by
    rw [less_eq_key, Option.getD_some, decide_eq_true_eq] at hac
    rw [less_eq_key, less_eq_key, Option.getD_some, Option.getD_some, decide_eq_true_eq, decide_eq_true_eq]
    rcases lt_or_ge (key sz a.qos) (key sz b.qos) with h | h
    · exact .inl h
    · exact .inr (h.trans_lt hac)

instance : TotalKey (QosKey sz) where
  eq_of_same {a b} h := by
    simp only [same_iff, lt, less_eq_key, Option.getD_some, decide_eq_false_iff_not, not_lt] at h
    have hqos : a.qos = b.qos := key_injective sz (le_antisymm h.2 h.1)
    cases a
    cases b
    rw [QosKey.mk.injEq]
    exact hqos

/-- A `CommonWriter` with the QoS that it was created with. -/
structure QoSSpecificWriter extends CommonWriter where
  specificQos : SpecificEndpointQoS

structure MultiWriter (sz : PartitionSize) where
  guidPrefix : GuidPrefix
  topic : DdsTopic
  repeater : Bool
  enabled : Bool := false
  writersMap : OrdMap (QosKey sz) QoSSpecificWriter := OrdMap.empty

namespace MultiWriter

/-- `BaseWriter::enable` of an inner writer. -/
def enableInner (w : QoSSpecificWriter) : QoSSpecificWriter :=
  if w.enabled then w else { w with toCommonWriter := w.toCommonWriter.enable }

/-- `BaseWriter::disable` of an inner writer. -/
def disableInner (w : QoSSpecificWriter) : QoSSpecificWriter :=
  if w.enabled then { w with toCommonWriter := w.toCommonWriter.disable } else w

/-- `BaseWriter::enable` with `enable_`. -/
def enable (m : MultiWriter sz) : MultiWriter sz :=
  if m.enabled then m else { m with enabled := true, writersMap := m.writersMap.mapValues enableInner }

/-- `BaseWriter::disable` with `disable_`. -/
def disable (m : MultiWriter sz) : MultiWriter sz :=
  if m.enabled then { m with enabled := false, writersMap := m.writersMap.mapValues disableInner } else m

/-- `create_writer_nts_`, with the entity id that Fast DDS gives. -/
def createWriterNts (m : MultiWriter sz) (qos : SpecificEndpointQoS) (entityId : EntityId) : QoSSpecificWriter :=
  { guid := ⟨m.guidPrefix, entityId⟩, topic := m.topic, repeater := m.repeater, specificQos := qos }

/-- `get_writer_or_create_`: the writer, and the map that it is in afterwards. -/
def getWriterOrCreate (m : MultiWriter sz) (qos : SpecificEndpointQoS) (entityId : EntityId) :
    QoSSpecificWriter × MultiWriter sz :=
  match m.writersMap.find ⟨qos⟩ with
  | some w => (w, m)
  | none =>
    let w := m.createWriterNts qos entityId
    let w' := if m.enabled then enableInner w else w
    (w', { m with writersMap := m.writersMap.set ⟨qos⟩ w' })

/-- `BaseWriter::write` with `write_`: the inner writer is changed where it is in
the map. -/
def write (m : MultiWriter sz) (data : RouterData) (change : NewChange) (entityId : EntityId) :
    WriteResult × MultiWriter sz :=
  if m.enabled then
    let g := m.getWriterOrCreate data.writerQos entityId
    let r := g.1.write data change
    (r.1, { g.2 with writersMap := g.2.writersMap.set ⟨data.writerQos⟩ { g.1 with toCommonWriter := r.2 } })
  else ({ code := .notEnabled }, m)

end MultiWriter

/-- A call of one of the three operations. -/
inductive Call where
  | enable
  | disable
  | write (data : RouterData) (change : NewChange) (entityId : EntityId)

def MultiWriter.call (m : MultiWriter sz) : Call → MultiWriter sz
  | .enable => m.enable
  | .disable => m.disable
  | .write data change entityId => (m.write data change entityId).2

/-- Calls one after the other. -/
def MultiWriter.calls (m : MultiWriter sz) (cs : List Call) : MultiWriter sz := cs.foldl MultiWriter.call m

/-- What the call switches the writer to. -/
def Call.switch? : Call → Option Bool
  | .enable => some true
  | .disable => some false
  | .write _ _ _ => none

namespace MultiWriter

variable {m : MultiWriter sz} {data : RouterData} {change : NewChange} {entityId : EntityId}

theorem call_enabled (m : MultiWriter sz) (c : Call) : (m.call c).enabled = c.switch?.getD m.enabled := by
  cases c with
  | enable =>
    simp only [call, enable, Call.switch?, Option.getD_some]
    split
    · assumption
    · rfl
  | disable =>
    simp only [call, disable, Call.switch?, Option.getD_some]
    split
    · rfl
    · rename_i he
      simpa using he
  | write data change entityId =>
    simp only [call, write, Call.switch?, Option.getD_none]
    split
    · rw [getWriterOrCreate]
      split <;> rfl
    · rfl

/-- The last call that switches the writer decides. -/
theorem calls_enabled (m : MultiWriter sz) (cs : List Call) :
    (m.calls cs).enabled = (cs.filterMap Call.switch?).getLast?.getD m.enabled := by
  induction cs generalizing m with
  | nil => rfl
  | cons c cs ih =>
    rw [calls, List.foldl_cons, ← calls, ih, call_enabled]
    cases hc : c.switch? with
    | none => rw [List.filterMap_cons_none hc, Option.getD_none]
    | some b => rw [List.filterMap_cons_some hc, List.getLast?_cons, Option.getD_some, Option.getD_some]

/-- Every inner writer is in the map under the QoS it was created with, is
enabled as the `MultiWriter` is, and has room in its history. -/
structure Sound (m : MultiWriter sz) : Prop where
  own : ∀ q w, m.writersMap.find ⟨q⟩ = some w → w.specificQos = q
  enabled : ∀ q w, m.writersMap.find ⟨q⟩ = some w → w.enabled = m.enabled
  fit : ∀ q w, m.writersMap.find ⟨q⟩ = some w → w.Fit

/-- No two inner writers are for the same strength and partition names. -/
def OneForEach (m : MultiWriter sz) : Prop :=
  m.writersMap.entries.Pairwise fun e f =>
    ¬ (e.2.specificQos.ownershipStrength = f.2.specificQos.ownershipStrength ∧
      e.2.specificQos.partitions = f.2.specificQos.partitions)

/-- Every inner writer is enabled iff the `MultiWriter` is. -/
def EnabledTogether (m : MultiWriter sz) : Prop :=
  ∀ e ∈ m.writersMap.entries, (e.2.enabled = true ↔ m.enabled = true)

/-- The inner writers that there were are still there, each at its place. -/
def Kept (m m' : MultiWriter sz) : Prop :=
  ∀ k w, m.writersMap.find k = some w →
    ∃ w', m'.writersMap.find k = some w' ∧ w'.guid = w.guid ∧ w'.specificQos = w.specificQos

/-- The sample goes out through the inner writer `w` and no other: it has the
QoS of the sample, it was there or is new, and the others stay as they are. -/
structure WrittenThrough (m : MultiWriter sz) (data : RouterData) (change : NewChange) (entityId : EntityId)
    (w : QoSSpecificWriter) : Prop where
  strength : w.specificQos.ownershipStrength = data.writerQos.ownershipStrength
  partitions : w.specificQos.partitions = data.writerQos.partitions
  chosen : m.writersMap.find ⟨data.writerQos⟩ = some w ∨
    m.writersMap.find ⟨data.writerQos⟩ = none ∧ w = enableInner (m.createWriterNts data.writerQos entityId)
  enabled : w.enabled = true
  result : (m.write data change entityId).1 = (w.write data change).1
  writes : (m.write data change entityId).2.writersMap.find ⟨data.writerQos⟩ =
    some { w with toCommonWriter := (w.write data change).2 }
  others : ∀ q, q ≠ data.writerQos →
    (m.write data change entityId).2.writersMap.find ⟨q⟩ = m.writersMap.find ⟨q⟩

theorem same_key_iff {q q' : SpecificEndpointQoS} :
    same (⟨q⟩ : QosKey sz) ⟨q'⟩ = true ↔ q = q' := by
  rw [same_iff_eq, QosKey.mk.injEq]

theorem enableInner_eq (w : QoSSpecificWriter) :
    enableInner w = { w with toCommonWriter := w.toCommonWriter.enable } := by
  unfold enableInner
  split
  · rename_i h
    obtain ⟨w, q⟩ := w
    simp only [CommonWriter.enable]
    rw [← h]
  · rfl

theorem disableInner_eq (w : QoSSpecificWriter) :
    disableInner w = { w with toCommonWriter := w.toCommonWriter.disable } := by
  unfold disableInner
  split
  · rfl
  · rename_i h
    obtain ⟨w, q⟩ := w
    simp only [CommonWriter.disable]
    rw [← Bool.eq_false_of_not_eq_true h]

/-- What an inner writer keeps of itself when it writes. -/
theorem write_inner {w : CommonWriter} (hfit : w.Fit) (data : RouterData) (change : NewChange) :
    (w.write data change).2.guid = w.guid ∧ (w.write data change).2.enabled = w.enabled ∧
      (w.write data change).2.Fit := by
  by_cases hfail : w.enabled = false ∨ w.available change = false
  · rw [(CommonWriter.write_failed hfail data).2.2.2]
    exact ⟨rfl, rfl, hfit⟩
  · simp only [not_or, Bool.not_eq_false] at hfail
    obtain ⟨c, w', hwrite, hsent, hfit'⟩ := CommonWriter.write_sent hfit hfail.1 hfail.2 data
    rw [hwrite]
    exact ⟨hsent.guid, hsent.enabled, hfit'⟩

theorem fit_enable {w : CommonWriter} (h : w.Fit) : w.enable.Fit := ⟨h.room, h.kind, h.pool⟩

theorem fit_disable {w : CommonWriter} (h : w.Fit) : w.disable.Fit := ⟨h.room, h.kind, h.pool⟩

/-- The writer that a sample goes to, as `get_writer_or_create_` finds or makes it. -/
theorem writtenThrough (h : m.Sound) (he : m.enabled = true) (data : RouterData) (change : NewChange)
    (entityId : EntityId) : ∃ w, m.WrittenThrough data change entityId w ∧ w.Fit := by
  cases hfind : m.writersMap.find ⟨data.writerQos⟩ with
  | some w =>
    have hown := h.own _ w hfind
    refine ⟨w, ⟨by rw [hown], by rw [hown], .inl hfind, (h.enabled _ w hfind).trans he, ?_, ?_, fun q hq => ?_⟩,
      h.fit _ w hfind⟩
    · simp [write, he, getWriterOrCreate, hfind]
    · simp [write, he, getWriterOrCreate, hfind]
    · simp [write, he, getWriterOrCreate, hfind, same_key_iff, hq]
  | none =>
    refine ⟨enableInner (m.createWriterNts data.writerQos entityId),
      ⟨by rw [enableInner_eq]; rfl, by rw [enableInner_eq]; rfl, .inr ⟨hfind, rfl⟩, by rw [enableInner_eq]; rfl,
        ?_, ?_, fun q hq => ?_⟩, ?_⟩
    · simp [write, he, getWriterOrCreate, hfind]
    · simp [write, he, getWriterOrCreate, hfind]
    · simp [write, he, getWriterOrCreate, hfind, same_key_iff, hq]
    · rw [enableInner_eq]
      exact CommonWriter.fit_init _ _ _ true

theorem find_enable (h : m.Sound) (q : SpecificEndpointQoS) :
    m.enable.writersMap.find ⟨q⟩ = (m.writersMap.find ⟨q⟩).map enableInner ∧ m.enable.enabled = true := by
  unfold enable
  split
  · rename_i he
    refine ⟨?_, he⟩
    cases hq : m.writersMap.find ⟨q⟩ with
    | none => rfl
    | some w => rw [Option.map_some, enableInner, if_pos ((h.enabled q w hq).trans he)]
  · exact ⟨OrdMap.find_mapValues _ _ _, rfl⟩

theorem find_disable (h : m.Sound) (q : SpecificEndpointQoS) :
    m.disable.writersMap.find ⟨q⟩ = (m.writersMap.find ⟨q⟩).map disableInner ∧ m.disable.enabled = false := by
  unfold disable
  split
  · exact ⟨OrdMap.find_mapValues _ _ _, rfl⟩
  · rename_i he
    refine ⟨?_, Bool.eq_false_of_not_eq_true he⟩
    cases hq : m.writersMap.find ⟨q⟩ with
    | none => rfl
    | some w => rw [Option.map_some, disableInner, if_neg (by rw [h.enabled q w hq]; exact he)]

theorem enabled_write (m : MultiWriter sz) (data : RouterData) (change : NewChange) (entityId : EntityId) :
    (m.write data change entityId).2.enabled = m.enabled := by
  unfold write getWriterOrCreate
  split
  · split <;> rfl
  · rfl

/-- The inner writer `w` of a state that was `w₀`, if it was there, in the one before. -/
structure Follows (m : MultiWriter sz) (q : SpecificEndpointQoS) (w₀ : Option QoSSpecificWriter)
    (w : QoSSpecificWriter) : Prop where
  own : w.specificQos = q
  enabled : w.enabled = m.enabled
  fit : w.Fit
  guid : ∀ w', w₀ = some w' → w.guid = w'.guid

/-- What a call does to the inner writer of a QoS: it stays the same writer, or
it is new. -/
theorem call_cases (h : m.Sound) (c : Call) (q : SpecificEndpointQoS) :
    (m.writersMap.find ⟨q⟩ = none ∧ (m.call c).writersMap.find ⟨q⟩ = none) ∨
      ∃ w, (m.call c).writersMap.find ⟨q⟩ = some w ∧ (m.call c).Follows q (m.writersMap.find ⟨q⟩) w := by
  cases c with
  | enable =>
    obtain ⟨hfind, hen⟩ := find_enable h q
    rw [call, hfind]
    cases hq : m.writersMap.find ⟨q⟩ with
    | none => exact .inl ⟨rfl, rfl⟩
    | some w =>
      refine .inr ⟨enableInner w, rfl, ?_⟩
      rw [enableInner_eq]
      exact ⟨h.own q w hq, hen.symm, fit_enable (h.fit q w hq), by simp [CommonWriter.enable]⟩
  | disable =>
    obtain ⟨hfind, hen⟩ := find_disable h q
    rw [call, hfind]
    cases hq : m.writersMap.find ⟨q⟩ with
    | none => exact .inl ⟨rfl, rfl⟩
    | some w =>
      refine .inr ⟨disableInner w, rfl, ?_⟩
      rw [disableInner_eq]
      exact ⟨h.own q w hq, hen.symm, fit_disable (h.fit q w hq), by simp [CommonWriter.disable]⟩
  | write data change entityId =>
    -- an inner writer that the call leaves alone follows itself
    have hsame : (m.write data change entityId).2.writersMap.find ⟨q⟩ = m.writersMap.find ⟨q⟩ →
        (m.writersMap.find ⟨q⟩ = none ∧ (m.write data change entityId).2.writersMap.find ⟨q⟩ = none) ∨
          ∃ w, (m.write data change entityId).2.writersMap.find ⟨q⟩ = some w ∧
            (m.write data change entityId).2.Follows q (m.writersMap.find ⟨q⟩) w := by
      intro hfind
      rw [hfind]
      cases hq : m.writersMap.find ⟨q⟩ with
      | none => exact .inl ⟨rfl, rfl⟩
      | some w =>
        refine .inr ⟨w, rfl, h.own q w hq, ?_, h.fit q w hq, by simp⟩
        rw [enabled_write, h.enabled q w hq]
    rw [call]
    by_cases he : m.enabled = true
    · obtain ⟨w, hw, hfit⟩ := writtenThrough h he data change entityId
      by_cases hq : q = data.writerQos
      · subst hq
        obtain ⟨hguid, hen, hfit'⟩ := write_inner hfit data change
        have hown : w.specificQos = data.writerQos := by
          cases hqos : w.specificQos
          cases hdata : data.writerQos
          have hs := hw.strength
          have hp := hw.partitions
          rw [hqos, hdata] at hs hp
          rw [SpecificEndpointQoS.mk.injEq]
          exact ⟨hp, hs⟩
        refine .inr ⟨_, hw.writes, hown, ?_, hfit', fun w' hw' => ?_⟩
        · rw [enabled_write, he]
          exact hen.trans hw.enabled
        · rcases hw.chosen with hchosen | ⟨hnone, -⟩
          · rw [hchosen, Option.some.injEq] at hw'
            rw [← hw']
            exact hguid
          · rw [hnone] at hw'
            cases hw'
      · exact hsame (hw.others q hq)
    · apply hsame
      rw [write, if_neg he]

theorem sound_init (guidPrefix : GuidPrefix) (topic : DdsTopic) (repeater : Bool) :
    Sound ({ guidPrefix := guidPrefix, topic := topic, repeater := repeater } : MultiWriter sz) := by
  refine ⟨fun q w h => ?_, fun q w h => ?_, fun q w h => ?_⟩
  all_goals cases h

theorem sound_call (h : m.Sound) (c : Call) : (m.call c).Sound := by
  have hfollows : ∀ q w, (m.call c).writersMap.find ⟨q⟩ = some w →
      (m.call c).Follows q (m.writersMap.find ⟨q⟩) w := by
    intro q w hw
    rcases call_cases h c q with ⟨-, hnone⟩ | ⟨w', hw', hf⟩
    · rw [hnone] at hw
      cases hw
    · rw [hw', Option.some.injEq] at hw
      rw [← hw]
      exact hf
  exact ⟨fun q w hw => (hfollows q w hw).own, fun q w hw => (hfollows q w hw).enabled,
    fun q w hw => (hfollows q w hw).fit⟩

theorem kept_call (h : m.Sound) (c : Call) : m.Kept (m.call c) := by
  intro ⟨q⟩ w hw
  rcases call_cases h c q with ⟨hnone, -⟩ | ⟨w', hw', hf⟩
  · rw [hnone] at hw
    cases hw
  · exact ⟨w', hw', hf.guid w hw, by rw [hf.own, h.own q w hw]⟩

theorem sound_calls (h : m.Sound) (cs : List Call) : (m.calls cs).Sound := by
  induction cs generalizing m with
  | nil => exact h
  | cons c cs ih => exact ih (sound_call h c)

theorem kept_calls (h : m.Sound) (cs : List Call) : m.Kept (m.calls cs) := by
  induction cs generalizing m with
  | nil => exact fun k w hw => ⟨w, hw, rfl, rfl⟩
  | cons c cs ih =>
    intro k w hw
    obtain ⟨w₁, hw₁, hguid₁, hqos₁⟩ := kept_call h c k w hw
    obtain ⟨w₂, hw₂, hguid₂, hqos₂⟩ := ih (sound_call h c) k w₁ hw₁
    exact ⟨w₂, hw₂, hguid₂.trans hguid₁, hqos₂.trans hqos₁⟩

theorem oneForEach_of_sound (h : m.Sound) : m.OneForEach := by
  refine m.writersMap.sorted.imp_of_mem fun {e f} he hf hlt hsame => ?_
  have hown : ∀ e ∈ m.writersMap.entries, e.2.specificQos = e.1.qos := by
    intro e he
    exact h.own e.1.qos e.2 (OrdMap.find_of_mem he)
  obtain ⟨hstrength, hpartitions⟩ := hsame
  rw [hown e he, hown f hf] at hstrength hpartitions
  have hqos : key sz e.1.qos = key sz f.1.qos := by rw [key, key, hstrength, hpartitions]
  simp only [lt, less_eq_key, Option.getD_some, hqos, lt_irrefl, decide_false, Bool.false_eq_true] at hlt

theorem enabledTogether_of_sound (h : m.Sound) : m.EnabledTogether := by
  intro e he
  rw [h.enabled e.1.qos e.2 (OrdMap.find_of_mem he)]

end MultiWriter

/-- `operator <` always has an answer and is a strict weak order, in which two
QoS are equivalent only if strength and names are equal. -/
structure OrdersQos (less : SpecificEndpointQoS → SpecificEndpointQoS → Option Bool) : Prop where
  answers : ∀ a b, (less a b).isSome = true
  irrefl : ∀ a, less a a ≠ some true
  trans : ∀ a b c, less a b = some true → less b c = some true → less a c = some true
  cotrans : ∀ a b c, less a c = some true → less a b = some true ∨ less b c = some true
  equivalent : ∀ a b, (less a b ≠ some true ∧ less b a ≠ some true) ↔
    (a.ownershipStrength = b.ownershipStrength ∧ a.partitions = b.partitions)

theorem ordersQos_less (sz : PartitionSize) : OrdersQos (less sz) := by
  have hlt : ∀ a b, less sz a b = some true ↔ key sz a < key sz b := by
    intro a b
    rw [less_eq_key, Option.some.injEq, decide_eq_true_eq]
  refine ⟨fun a b => by rw [less_eq_key, Option.isSome_some], fun a => by rw [ne_eq, hlt]; exact lt_irrefl _,
    fun a b c hab hbc => ?_, fun a b c hac => ?_, fun a b => ?_⟩
  · rw [hlt] at hab hbc ⊢
    exact hab.trans hbc
  · rw [hlt] at hac
    rw [hlt, hlt]
    exact (lt_or_ge (key sz a) (key sz b)).imp_right fun h => h.trans_lt hac
  · rw [ne_eq, ne_eq, hlt, hlt, not_lt, not_lt]
    constructor
    · intro h
      rw [key_injective sz (le_antisymm h.2 h.1)]
      exact ⟨rfl, rfl⟩
    · rintro ⟨hs, hp⟩
      rw [key, key, hs, hp]
      exact ⟨le_refl _, le_refl _⟩

namespace MultiWriter

variable {m : MultiWriter sz}

/-- One inner writer for each QoS, enabled as the `MultiWriter` is and there for
good, and every sample that is accepted goes out through exactly one of them. -/
structure Dispatches (m : MultiWriter sz) : Prop where
  oneForEach : m.OneForEach
  enabledTogether : m.EnabledTogether
  kept : ∀ cs, m.Kept (m.calls cs)
  written : ∀ data change entityId,
    if m.enabled = true then ∃! w, m.WrittenThrough data change entityId w
    else m.write data change entityId = ({ code := .notEnabled }, m)

theorem dispatches_of_sound (h : m.Sound) : m.Dispatches := by
  refine ⟨oneForEach_of_sound h, enabledTogether_of_sound h, kept_calls h, fun data change entityId => ?_⟩
  split
  · rename_i he
    obtain ⟨w, hw, -⟩ := writtenThrough h he data change entityId
    refine ⟨w, hw, fun w' hw' => ?_⟩
    rcases hw.chosen with h₁ | ⟨h₁, hnew⟩ <;> rcases hw'.chosen with h₂ | ⟨h₂, hnew'⟩
    · rw [h₁, Option.some.injEq] at h₂
      exact h₂.symm
    · rw [h₁] at h₂
      cases h₂
    · rw [h₁] at h₂
      cases h₂
    · rw [hnew, hnew']
  · rename_i he
    rw [write, if_neg he]

/-- After every run of calls a `MultiWriter` dispatches, whatever order its map has. -/
theorem calls_dispatches (sz : PartitionSize) :
    OrdersQos (less sz) ∧
      ∀ (guidPrefix : GuidPrefix) (topic : DdsTopic) (repeater : Bool) (cs : List Call),
        Dispatches (calls ({ guidPrefix := guidPrefix, topic := topic, repeater := repeater } : MultiWriter sz) cs) :=
  ⟨ordersQos_less sz, fun guidPrefix topic repeater cs =>
    dispatches_of_sound (sound_calls (sound_init guidPrefix topic repeater) cs)⟩

/-! Samples of two partitions, before the writer is enabled and after. -/

/-- A sample of one byte from a writer in the partition. -/
def inPartition (name : String) : RouterData :=
  { length := 1, maxSize := 1, sourceGuid := Guid.unknown, sourceTimestamp := 0, participantReceiver := ⟨"a"⟩
    instanceHandle := 0, kind := .alive, sampleIdentity := .unknown, relatedSampleIdentity := .unknown
    originSequenceNumber := 1, block := some 0
    writerQos := { partitions := [name] } }

def twoPartitions : List Call :=
  [.write (inPartition "A") .created 1, .enable, .write (inPartition "A") .created 1,
    .write (inPartition "B") .created 2]

/-- A third sample goes out through the writer of its partition, of two. -/
theorem calls_dispatches_two :
    ∃ m : MultiWriter PartitionSize.count,
      m = calls { guidPrefix := 1, topic := { topicName := "t", typeName := "T" }, repeater := false } twoPartitions ∧
      m.enabled = true ∧ m.writersMap.size = 2 ∧ (m.write (inPartition "A") .created 3).1.code = .ok ∧
      ∃! w, m.WrittenThrough (inPartition "A") .created 3 w := by
  have hdispatches := (calls_dispatches PartitionSize.count).2 1 { topicName := "t", typeName := "T" } false twoPartitions
  have henabled : (calls ({ guidPrefix := 1, topic := { topicName := "t", typeName := "T" }, repeater := false } :
      MultiWriter PartitionSize.count) twoPartitions).enabled = true := calls_enabled _ _
  have hwritten := hdispatches.written (inPartition "A") .created 3
  rw [if_pos henabled] at hwritten
  exact ⟨_, rfl, henabled, by decide +kernel, by decide +kernel, hwritten⟩

/-! The `MultiWriter` that participants are given, without the QoS of its inner
writers, is this one. -/

/-- The same writers, seen without their QoS. -/
structure Forgets (m : MultiWriter sz) (n : DDSRouter.MultiWriter) : Prop where
  guidPrefix : n.guidPrefix = m.guidPrefix
  topic : n.topic = m.topic
  repeater : n.repeater = m.repeater
  enabled : n.enabled = m.enabled
  inner : ∀ q, n.writersMap.find q = (m.writersMap.find ⟨q⟩).map QoSSpecificWriter.toCommonWriter

variable {n : DDSRouter.MultiWriter}

theorem forgets_enable (h : m.Forgets n) : m.enable.Forgets n.enable := by
  unfold enable DDSRouter.MultiWriter.enable
  rw [h.enabled]
  split
  · exact h
  · refine ⟨h.guidPrefix, h.topic, h.repeater, rfl, fun q => ?_⟩
    simp only [DDSRouter.MultiWriter.mapWriters, OrdMap.find_mapValues, h.inner, Option.map_map]
    congr 1
    funext w
    simp [enableInner_eq]

theorem forgets_disable (h : m.Forgets n) : m.disable.Forgets n.disable := by
  unfold disable DDSRouter.MultiWriter.disable
  rw [h.enabled]
  split
  · refine ⟨h.guidPrefix, h.topic, h.repeater, rfl, fun q => ?_⟩
    simp only [DDSRouter.MultiWriter.mapWriters, OrdMap.find_mapValues, h.inner, Option.map_map]
    congr 1
    funext w
    simp [disableInner_eq]
  · exact h

/-- A write whose inner writer can be created gives the same answer in both. -/
theorem forgets_write (h : m.Forgets n) (data : RouterData) (o : WriteOutcome) (ho : o.created = true) :
    ∃ n', n.write data o = some ((m.write data o.change o.entityId).1, n') ∧
      (m.write data o.change o.entityId).2.Forgets n' := by
  by_cases he : m.enabled = true
  · have hn : n.enabled = true := h.enabled.trans he
    have hinner := h.inner data.writerQos
    cases hfind : m.writersMap.find ⟨data.writerQos⟩ with
    | some w =>
      rw [hfind, Option.map_some] at hinner
      simp only [write, if_pos he, DDSRouter.MultiWriter.write, if_pos hn,
        DDSRouter.MultiWriter.getWriterOrCreate, hinner, getWriterOrCreate, hfind, Option.map_some]
      refine ⟨_, rfl, h.guidPrefix, h.topic, h.repeater, h.enabled, fun q => ?_⟩
      simp only [OrdMap.find_set, same_iff_eq, QosKey.mk.injEq, h.inner]
      split <;> rfl
    | none =>
      rw [hfind, Option.map_none] at hinner
      have hnew : (enableInner (m.createWriterNts data.writerQos o.entityId)).toCommonWriter =
          n.createWriterNts o.entityId := by
        rw [enableInner_eq, DDSRouter.MultiWriter.createWriterNts, h.guidPrefix, h.topic, h.repeater, hn]
        rfl
      simp only [write, if_pos he, DDSRouter.MultiWriter.write, if_pos hn,
        DDSRouter.MultiWriter.getWriterOrCreate, hinner, if_pos ho, getWriterOrCreate, hfind, Option.map_some, hnew]
      refine ⟨_, rfl, h.guidPrefix, h.topic, h.repeater, h.enabled, fun q => ?_⟩
      simp only [OrdMap.find_set, same_iff_eq, QosKey.mk.injEq, h.inner]
      split <;> rfl
  · have hn : ¬ n.enabled = true := by rwa [h.enabled]
    refine ⟨n, ?_, ?_⟩
    · rw [write, if_neg he, DDSRouter.MultiWriter.write, if_neg hn]
    · rw [write, if_neg he]
      exact h

end MultiWriter

end Dispatch

end DDSRouter
