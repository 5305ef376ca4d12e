import DDSRouter.Writer
import DDSRouter.Lib.BoundedQueue
import Mathlib.Data.List.Forall2

/-!
# The depth of a writer's history

A reliable writer keeps what it has sent for readers that come late. `write_`
adds the change first and looks afterwards whether the history is full, and then
takes the oldest change out: there is always room for the next one, and the
history is left with one change less than its depth.
-/
namespace DDSRouter

namespace CommonWriter

open BoundedQueue

/-- A writer that has been created and enabled. -/
def started (guid : Guid) (topic : DdsTopic) (repeater : Bool) : CommonWriter :=
  enable { guid := guid, topic := topic, repeater := repeater }

/-- Calls of `write`, one after the other, each with the change that it gets. -/
def writeAll (w : CommonWriter) : List (RouterData × NewChange) → List WriteResult × CommonWriter
  | [] => ([], w)
  | (data, o) :: rest =>
    ((w.write data o).1 :: ((w.write data o).2.writeAll rest).1, ((w.write data o).2.writeAll rest).2)

/-- Every one of the calls gets a change. -/
def Acquires (w : CommonWriter) : List (RouterData × NewChange) → Prop
  | [] => True
  | (data, o) :: rest => w.available o = true ∧ (w.write data o).2.Acquires rest

/-- The changes that the calls added to the history. -/
def samples (rs : List WriteResult) : List WriterChange := rs.filterMap WriteResult.added

/-- The change has the payload of the data. -/
def Carries (c : WriterChange) (data : RouterData) : Prop :=
  c.length = data.length ∧ c.block = if data.length > 0 then data.block else none

/-- A history of this depth after the calls: it holds the last samples, as many
as the depth says, and all of them if that is 0. -/
def KeepsDepth (w : CommonWriter) (d : Nat) (writes : List (RouterData × NewChange)) : Prop :=
  (w.writeAll writes).2.history =
    if d = 0 then samples (w.writeAll writes).1
    else (samples (w.writeAll writes).1).rtake (min writes.length d)

/-- The sample of every call was added to the history. -/
def AllAdded (w : CommonWriter) (writes : List (RouterData × NewChange)) : Prop :=
  (∀ r ∈ (w.writeAll writes).1, r.added.isSome = true) ∧
    List.Forall₂ Carries (samples (w.writeAll writes).1) (writes.map Prod.fst)

variable {w : CommonWriter} {data : RouterData} {o : NewChange}

/-- The end of `write_` in a reliable topic is that of a queue with a limit. -/
theorem history_trim {c : WriterChange} {cs : List WriterChange} (hr : w.topic.topicQos.isReliable = true)
    (h : w.history = cs ++ [c]) (hlen : w.depth ≠ 0 → cs.length < w.depth) :
    w.trim.history = push w.depth cs c := by
  have hfull : w.isFull = decide (cs.length + 1 = w.depth) := by
    have hdepth := w.depth_lt
    rw [isFull_eq, decide_eq_decide, h, List.length_append, List.length_singleton]
    omega
  simp only [trim, hr, Bool.not_true, Bool.false_eq_true, if_false, hfull, decide_eq_true_eq]
  split
  · rename_i heq
    rw [push_of_eq heq, removeMinChange, h]
  · rename_i heq
    rw [push_of_ne heq, h]

/-- One write: the sample is added, and the history takes it as its queue. -/
theorem write_push (hfit : w.Fit) (he : w.enabled = true) (hr : w.topic.topicQos.isReliable = true)
    (ha : w.available o = true) (data : RouterData) :
    ∃ c, (w.write data o).1.added = some c ∧ Carries c data ∧
      (w.write data o).2.history = push w.depth w.history c := by
  obtain ⟨c, pool, hwrite, hfit₁, -, -, -, hlen, hblock⟩ := write_eq_trim hfit he ha data
  refine ⟨c, by rw [hwrite], ⟨hlen, hblock⟩, ?_⟩
  rw [hwrite]
  have hroom : w.depth ≠ 0 → w.history.length < w.depth := fun hd => hfit.room (Nat.pos_of_ne_zero hd)
  exact history_trim hr rfl hroom

/-- The run from any writer: the samples go through its queue one by one. -/
theorem writeAll_foldl (hfit : w.Fit) (he : w.enabled = true) (hr : w.topic.topicQos.isReliable = true)
    {writes : List (RouterData × NewChange)} (ha : w.Acquires writes) :
    w.AllAdded writes ∧
      (w.writeAll writes).2.history = (samples (w.writeAll writes).1).foldl (push w.depth) w.history := by
  induction writes generalizing w with
  | nil => exact ⟨⟨by simp [writeAll], .nil⟩, rfl⟩
  | cons write rest ih =>
    obtain ⟨data, o⟩ := write
    obtain ⟨c, hadded, hcarries, hpush⟩ := write_push hfit he hr ha.1 data
    obtain ⟨c', w', hwrite, hsent, hfit'⟩ := write_sent hfit he ha.1 data
    have hw' : (w.write data o).2 = w' := by rw [hwrite]
    have hdepth : w'.depth = w.depth := by rw [depth, hsent.topic, depth]
    obtain ⟨⟨hall, hcarried⟩, hhist⟩ := ih hfit' (hsent.enabled.trans he) (by rw [hsent.topic, hr]) (hw' ▸ ha.2)
    rw [hw'] at hpush
    have hsamples : samples (w.writeAll ((data, o) :: rest)).1 = c :: samples (w'.writeAll rest).1 := by
      simp only [writeAll, samples, List.filterMap_cons, hadded, hw']
    refine ⟨⟨fun r hrm => ?_, ?_⟩, ?_⟩
    · simp only [writeAll, List.mem_cons, hw'] at hrm
      rcases hrm with rfl | hrm
      · rw [hadded, Option.isSome_some]
      · exact hall r hrm
    · rw [hsamples]
      exact .cons hcarries hcarried
    · rw [hsamples, List.foldl_cons, ← hpush, ← hdepth, ← hhist, writeAll, hw']

/-- For a depth of 0 everything is kept, and otherwise one sample less than the
depth: after as many writes as the depth says the oldest sample is missing. -/
theorem writeAll_keepsDepth_iff (guid : Guid) (topic : DdsTopic) (repeater : Bool) (d : UInt32)
    (hd : topic.topicQos.historyDepth = d.toNat) (hr : topic.topicQos.isReliable = true)
    (writes : List (RouterData × NewChange)) (ha : (started guid topic repeater).Acquires writes) :
    (started guid topic repeater).AllAdded writes ∧
      ((started guid topic repeater).KeepsDepth d.toNat writes ↔ d = 0 ∨ writes.length < d.toNat) := by
  have hfit : (started guid topic repeater).Fit := fit_init guid topic repeater true
  obtain ⟨hadded, hhist⟩ := writeAll_foldl hfit rfl hr ha
  have hlen : (samples ((started guid topic repeater).writeAll writes).1).length = writes.length := by
    rw [hadded.2.length_eq, List.length_map]
  have hdepth : (started guid topic repeater).depth = d.toNat := by
    rw [depth, started, enable, hd, Nat.mod_eq_of_lt d.toNat_lt]
  have hempty : (started guid topic repeater).history = [] := rfl
  refine ⟨hadded, ?_⟩
  rw [KeepsDepth, hhist, hdepth, hempty, foldl_push, BoundedQueue.held, ← UInt32.toNat_inj, UInt32.toNat_zero]
  by_cases hzero : d.toNat = 0
  · simp [hzero]
  · rw [if_neg hzero, if_neg hzero, rtake_eq_rtake_iff, hlen]
    omega

/-- A reliable topic with a history depth. -/
def deepTopic (d : Nat) : DdsTopic :=
  { topicName := "t", typeName := "T", topicQos := { reliabilityQos := .reliable, historyDepth := d } }

/-- A sample of one byte. -/
def byteData : RouterData :=
  { length := 1, maxSize := 1, sourceGuid := Guid.unknown, sourceTimestamp := 0, participantReceiver := ⟨"p"⟩
    instanceHandle := 0, kind := .alive, sampleIdentity := SampleIdentity.unknown
    relatedSampleIdentity := SampleIdentity.unknown, originSequenceNumber := 1, block := some 0 }

/-- Three samples and an empty one, each in a new change. -/
def fourWrites : List (RouterData × NewChange) :=
  [(byteData, .created), ({ byteData with length := 3, maxSize := 3, block := some 1 }, .created),
    ({ byteData with length := 0, maxSize := 0, block := none }, .created), ({ byteData with block := some 2 }, .created)]

/-- A history of depth 5 has all four samples, and one of depth 4 has lost the first. -/
theorem writeAll_keepsDepth_four :
    (started Guid.unknown (deepTopic 5) false).AllAdded fourWrites ∧
      (started Guid.unknown (deepTopic 5) false).KeepsDepth 5 fourWrites ∧
      (started Guid.unknown (deepTopic 4) false).AllAdded fourWrites ∧
      ¬ (started Guid.unknown (deepTopic 4) false).KeepsDepth 4 fourWrites := by
  have hfive := writeAll_keepsDepth_iff Guid.unknown (deepTopic 5) false 5 rfl rfl fourWrites
    ⟨rfl, rfl, rfl, rfl, trivial⟩
  have hfour := writeAll_keepsDepth_iff Guid.unknown (deepTopic 4) false 4 rfl rfl fourWrites
    ⟨rfl, rfl, rfl, rfl, trivial⟩
  exact ⟨hfive.1, hfive.2.mpr (by decide), hfour.1, fun h => absurd (hfour.2.mp h) (by decide)⟩

/-- A history of depth 1 is empty after every write. -/
theorem writeAll_loses_last :
    (deepTopic 1).topicQos.isReliable = true ∧
      (started Guid.unknown (deepTopic 1) false).Acquires [(byteData, .created)] ∧
      ¬ (started Guid.unknown (deepTopic 1) false).KeepsDepth 1 [(byteData, .created)] := by
  refine ⟨rfl, ⟨rfl, trivial⟩, ?_⟩
  unfold KeepsDepth
  decide

end CommonWriter

end DDSRouter
