import DDSRouter.Lib.Runs
import DDSRouter.RPCBridge
import DDSRouter.Writer

/-!
# Sequence numbers of a proxy client

`RPCBridge` keys the registry of a proxy client by the sequence numbers that its
request writer reports. An RTPS writer numbers its own changes from one on, so
the numbers of one RTPS writer are distinct; behind a `MultiWriter` there is one
RTPS writer for each QoS, and each of them begins with one.
-/
namespace DDSRouter.ProxyClient

open Runs

/-- The request writer of a proxy client with its registry. `sent` are the
numbers reported for the successful writes and `written` their data; `met` says
that an addition to the registry has met its key. -/
structure State where
  writer : IWriter
  registry : ServiceRegistry := {}
  sent : List SequenceNumber := []
  written : List RouterData := []
  met : Bool := false

inductive Action where
  | enable | disable
  | write (data : RouterData) (entry : ParticipantId × SampleIdentity) (o : WriteOutcome)
  | erase (idx : SequenceNumber)
  | removeChange (qos : SpecificEndpointQoS) (i : Nat)

/-- A request goes out and is entered into the registry; replies erase entries,
and changes leave the histories of the RTPS writers, at any time. -/
def step (s : State) : Action → Option State
  | .enable => some { s with writer := s.writer.enable }
  | .disable => some { s with writer := s.writer.disable }
  | .write data entry o =>
    (s.writer.write data o).map fun r =>
      match r.1.code, r.1.sentSequenceNumber with
      | .ok, some k =>
        { writer := r.2
          registry := s.registry.add k entry
          sent := s.sent ++ [k]
          written := s.written ++ [data]
          met := s.met || s.registry.registry.contains k }
      | _, _ => { s with writer := r.2 }
  | .erase idx => some { s with registry := s.registry.erase idx }
  | .removeChange qos i => some { s with writer := s.writer.removeChange qos i }

/-- A proxy client over the writer that the participant creates. -/
def create (p : CommonParticipant) (topic : DdsTopic) (entityId : EntityId) : State :=
  { writer := p.createWriter topic entityId }

/-- The topic has one RTPS writer for all QoS. -/
def oneWriter (topic : DdsTopic) : Bool := !topic.topicQos.hasPartitions && !topic.topicQos.hasOwnership

/-- All successful writes were of data with one QoS. -/
def OneQos (written : List RouterData) : Prop :=
  ∀ d ∈ written, ∀ d' ∈ written, d.writerQos = d'.writerQos

instance (written : List RouterData) : Decidable (OneQos written) :=
  inferInstanceAs (Decidable (∀ d ∈ written, ∀ d' ∈ written, d.writerQos = d'.writerQos))

/-- The last number given by the RTPS writer of the QoS, zero if there is none. -/
def last (w : IWriter) (qos : SpecificEndpointQoS) : Nat := (w.inner qos).elim 0 CommonWriter.lastSequenceNumber

section Last

variable {p : CommonParticipant} {w : IWriter} {qos : SpecificEndpointQoS}

theorem last_put (w : IWriter) (qos q : SpecificEndpointQoS) (cw : CommonWriter) :
    last (w.put qos cw) q = if w.shares q qos then cw.lastSequenceNumber else last w q := by
  simp only [last, IWriter.inner_put]
  split <;> rfl

theorem last_writerFor {o : WriteOutcome} {cw : CommonWriter} (h : w.Fit p) (hw : w.writerFor qos o = some cw) :
    cw.lastSequenceNumber = last w qos := by
  obtain ⟨hcw | ⟨hnone, hzero⟩, -⟩ := IWriter.writerFor_cases h hw
  · simp [last, hcw]
  · simp [last, hnone, hzero]

theorem last_enable (h : w.Fit p) (q : SpecificEndpointQoS) : last w.enable q = last w q := by
  simp only [last, IWriter.inner_enable h]
  cases w.inner q <;> rfl

theorem last_disable (h : w.Fit p) (q : SpecificEndpointQoS) : last w.disable q = last w q := by
  simp only [last, IWriter.inner_disable h]
  cases w.inner q <;> rfl

theorem last_removeChange (w : IWriter) (qos q : SpecificEndpointQoS) (i : Nat) :
    last (w.removeChange qos i) q = last w q := by
  simp only [last, IWriter.inner_removeChange]
  split
  · cases w.inner q <;> rfl
  · rfl

end Last

/-- A step that is not a successful write: nothing is numbered. -/
structure Quiet (p : CommonParticipant) (s s' : State) : Prop where
  fit : s'.writer.Fit p
  shares : ∀ q qos, s'.writer.shares q qos = s.writer.shares q qos
  last : ∀ q, last s'.writer q = last s.writer q
  sent : s'.sent = s.sent
  written : s'.written = s.written
  met : s'.met = s.met
  entered : ∀ k, s'.registry.registry.contains k = true → s.registry.registry.contains k = true

/-- The number that the next change for the QoS gets. -/
def next (s : State) (qos : SpecificEndpointQoS) : SequenceNumber := (last s.writer qos : Int) + 1

/-- A successful write of the data. -/
structure Wrote (p : CommonParticipant) (data : RouterData) (s s' : State) : Prop where
  fit : s'.writer.Fit p
  shares : ∀ q qos, s'.writer.shares q qos = s.writer.shares q qos
  last : ∀ q, last s'.writer q =
    if s.writer.shares q data.writerQos then last s.writer data.writerQos + 1 else last s.writer q
  sent : s'.sent = s.sent ++ [next s data.writerQos]
  written : s'.written = s.written ++ [data]
  met : s'.met = (s.met || s.registry.registry.contains (next s data.writerQos))
  entered : ∀ k, s'.registry.registry.contains k = true →
    s.registry.registry.contains k = true ∨ k = next s data.writerQos

section Steps

variable {p : CommonParticipant} {s s' : State}

theorem shares_put (w : IWriter) (qos : SpecificEndpointQoS) (cw : CommonWriter) (q q' : SpecificEndpointQoS) :
    (w.put qos cw).shares q q' = w.shares q q' := by
  cases w <;> rfl

/-- Whatever an addition leaves in the registry was there or is new. -/
theorem contains_add {r : ServiceRegistry} {idx k : SequenceNumber} {entry : ParticipantId × SampleIdentity}
    (h : (r.add idx entry).registry.contains k = true) : r.registry.contains k = true ∨ k = idx := by
  obtain ⟨e, he⟩ := Option.isSome_iff_exists.mp h
  rcases ServiceRegistry.find_add he with hold | ⟨hk, -⟩
  · exact .inl (by simp [OrdMap.contains, hold])
  · exact .inr hk

theorem contains_erase {r : ServiceRegistry} {idx k : SequenceNumber}
    (h : (r.erase idx).registry.contains k = true) : r.registry.contains k = true := by
  obtain ⟨e, he⟩ := Option.isSome_iff_exists.mp h
  simp [OrdMap.contains, ServiceRegistry.find_erase he]

theorem step_write {data : RouterData} {entry : ParticipantId × SampleIdentity} {o : WriteOutcome}
    (hfit : s.writer.Fit p) (hs : step s (.write data entry o) = some s') :
    Quiet p s s' ∨ Wrote p data s s' := by
  simp only [step, Option.map_eq_some_iff] at hs
  obtain ⟨⟨r, w'⟩, hw, hs⟩ := hs
  obtain ⟨hfit', hcase⟩ := IWriter.write_cases hfit hw
  rcases hcase with ⟨-, hseq, -, hsame⟩ | ⟨cw, c, cw', hcw, hsent, rfl, rfl⟩
  · have hs' : s' = { s with writer := w' } := by
      rw [← hs]
      simp only [hseq]
      split
      · contradiction
      · rfl
    subst hs'
    left
    rcases hsame with rfl | ⟨cw, hcw, rfl⟩
    · exact ⟨hfit', fun _ _ => rfl, fun _ => rfl, rfl, rfl, rfl, fun _ hk => hk⟩
    · refine ⟨hfit', shares_put _ _ _, fun q => ?_, rfl, rfl, rfl, fun _ hk => hk⟩
      simp only [last_put]
      split
      · rename_i hq
        rw [last_writerFor hfit hcw]
        cases hwr : s.writer with
        | simple w => rfl
        | multi m => simp only [hwr, IWriter.shares, decide_eq_true_eq] at hq; rw [hq]
      · rfl
  · right
    have hnum : c.sequenceNumber = next s data.writerQos := by
      rw [hsent.number, last_writerFor hfit hcw]
      rfl
    cases hs
    refine ⟨hfit', shares_put _ _ _, fun q => ?_, by rw [hnum], rfl, by rw [hnum], fun k hk => ?_⟩
    · simp only [last_put, hsent.last, last_writerFor hfit hcw]
    · rw [← hnum]
      exact contains_add hk

theorem shares_removeChange (w : IWriter) (qos : SpecificEndpointQoS) (i : Nat) (q q' : SpecificEndpointQoS) :
    (w.removeChange qos i).shares q q' = w.shares q q' := by
  cases w with
  | simple w => rfl
  | multi m =>
    simp only [IWriter.removeChange]
    split <;> rfl

theorem step_cases {a : Action} (hfit : s.writer.Fit p) (hs : step s a = some s') :
    Quiet p s s' ∨ ∃ data, Wrote p data s s' := by
  cases a with
  | enable =>
    cases hs
    refine .inl ⟨IWriter.fit_enable hfit, fun q qos => ?_, last_enable hfit, rfl, rfl, rfl, fun _ hk => hk⟩
    cases s.writer <;> rfl
  | disable =>
    cases hs
    refine .inl ⟨IWriter.fit_disable hfit, fun q qos => ?_, last_disable hfit, rfl, rfl, rfl, fun _ hk => hk⟩
    cases s.writer <;> rfl
  | write data entry o =>
    rcases step_write hfit hs with h | h
    · exact .inl h
    · exact .inr ⟨data, h⟩
  | erase idx =>
    cases hs
    exact .inl ⟨hfit, fun _ _ => rfl, fun _ => rfl, rfl, rfl, rfl, fun _ hk => contains_erase hk⟩
  | removeChange qos i =>
    cases hs
    exact .inl ⟨IWriter.fit_removeChange hfit qos i, shares_removeChange _ qos i,
      fun q => last_removeChange _ qos q i, rfl, rfl, rfl, fun _ hk => hk⟩

end Steps

/-- What every step keeps, whatever the QoS of the data. -/
structure Known (p : CommonParticipant) (one : Bool) (s : State) : Prop where
  fit : s.writer.Fit p
  shares : ∀ q qos, s.writer.shares q qos = (one || decide (q = qos))
  first : s.written ≠ [] → 1 ∈ s.sent
  used : ∀ q, last s.writer q ≠ 0 → ∃ d ∈ s.written, one = true ∨ q = d.writerQos

/-- What is kept as long as all writes go through one RTPS writer. -/
structure Numbered (s : State) : Prop where
  nodup : s.sent.Nodup
  met : s.met = false
  none : s.written = [] → s.sent = []
  bound : ∀ d ∈ s.written, ∀ k ∈ s.sent, k ≤ (last s.writer d.writerQos : Int)
  entered : ∀ k, s.registry.registry.contains k = true → k ∈ s.sent

section Invariants

variable {p : CommonParticipant} {one : Bool} {s s' : State}

theorem known_create (p : CommonParticipant) (topic : DdsTopic) (entityId : EntityId) :
    Known p (oneWriter topic) (create p topic entityId) := by
  refine ⟨IWriter.fit_createWriter p topic entityId, fun q qos => ?_, fun h => absurd rfl h, fun q hq => ?_⟩
  · simp only [create, CommonParticipant.createWriter, oneWriter]
    cases topic.topicQos.hasPartitions <;> cases topic.topicQos.hasOwnership <;> simp [IWriter.shares]
  · refine absurd ?_ hq
    simp only [create, CommonParticipant.createWriter]
    split <;> rfl

theorem known_step {a : Action} (h : Known p one s) (hs : step s a = some s') : Known p one s' := by
  rcases step_cases h.fit hs with hq | ⟨data, hw⟩
  · refine ⟨hq.fit, fun q qos => (hq.shares q qos).trans (h.shares q qos), ?_, fun q => ?_⟩
    · rw [hq.written, hq.sent]
      exact h.first
    · rw [hq.last, hq.written]
      exact h.used q
  · refine ⟨hw.fit, fun q qos => (hw.shares q qos).trans (h.shares q qos), fun _ => ?_, fun q hne => ?_⟩
    · rw [hw.sent, List.mem_append, List.mem_singleton]
      by_cases hfirst : s.written = []
      · -- the first write of all gets the number one
        have hzero : last s.writer data.writerQos = 0 := by
          by_contra hne
          obtain ⟨d, hd, -⟩ := h.used _ hne
          simp [hfirst] at hd
        exact .inr (by simp [next, hzero])
      · exact .inl (h.first hfirst)
    · rw [hw.last, h.shares] at hne
      rw [hw.written]
      by_cases hq : one = true ∨ q = data.writerQos
      · exact ⟨data, by simp, hq⟩
      · rw [if_neg (by simpa using hq)] at hne
        obtain ⟨d, hd, hdq⟩ := h.used q hne
        exact ⟨d, List.mem_append_left _ hd, hdq⟩

theorem oneQos_append {written : List RouterData} {data : RouterData} (h : OneQos (written ++ [data])) :
    OneQos written ∧ ∀ d ∈ written, d.writerQos = data.writerQos := by
  constructor
  · exact fun d hd d' hd' => h d (List.mem_append_left _ hd) d' (List.mem_append_left _ hd')
  · exact fun d hd => h d (List.mem_append_left _ hd) data (by simp)

/-- The number of a write is new when all writes go through one RTPS writer. -/
theorem numbered_write {data : RouterData} (h : Known p one s) (hnum : Numbered s) (hw : Wrote p data s s')
    (hone : ∀ d ∈ s.written, one = true ∨ d.writerQos = data.writerQos) : Numbered s' := by
  have hlast : ∀ d ∈ s.written, last s.writer d.writerQos = last s.writer data.writerQos := by
    intro d hd
    have hsame : s.writer.shares d.writerQos data.writerQos = true := by
      rw [h.shares]
      simpa using hone d hd
    cases hwr : s.writer with
    | simple w => rfl
    | multi m =>
      rw [hwr] at hsame
      simp only [IWriter.shares, decide_eq_true_eq] at hsame
      rw [hsame]
  have hbelow : ∀ k ∈ s.sent, k < next s data.writerQos := by
    intro k hk
    obtain ⟨d, hd⟩ := List.exists_mem_of_ne_nil s.written fun hnil => by simp [hnum.none hnil] at hk
    have hle := hnum.bound d hd k hk
    rw [hlast d hd] at hle
    exact Int.lt_add_one_of_le hle
  have hnew : next s data.writerQos ∉ s.sent := fun hmem => absurd (hbelow _ hmem) (lt_irrefl _)
  refine ⟨?_, ?_, ?_, fun d hd k hk => ?_, fun k hk => ?_⟩
  · rw [hw.sent]
    exact List.nodup_append.mpr ⟨hnum.nodup, by simp, fun k hk k' hk' => by
      rw [List.mem_singleton] at hk'
      exact hk' ▸ ne_of_mem_of_not_mem hk hnew⟩
  · rw [hw.met, hnum.met, Bool.false_or]
    cases hc : s.registry.registry.contains (next s data.writerQos) with
    | false => rfl
    | true => exact absurd (hnum.entered _ hc) hnew
  · rw [hw.written]
    intro hnil
    simp at hnil
  · have hshare : s.writer.shares d.writerQos data.writerQos = true := by
      rw [hw.written, List.mem_append, List.mem_singleton] at hd
      rw [h.shares]
      rcases hd with hd | rfl
      · simpa using hone d hd
      · simp
    rw [hw.last, if_pos hshare]
    rw [hw.sent, List.mem_append, List.mem_singleton] at hk
    rcases hk with hk | rfl
    · have hlt := le_of_lt (hbelow k hk)
      simpa [next] using hlt
    · simp [next]
  · rw [hw.sent, List.mem_append, List.mem_singleton]
    rcases hw.entered k hk with hk | hk
    · exact .inl (hnum.entered k hk)
    · exact .inr hk

theorem numbered_quiet (hnum : Numbered s) (hq : Quiet p s s') : Numbered s' := by
  refine ⟨?_, ?_, ?_, fun d hd k hk => ?_, fun k hk => ?_⟩
  · rw [hq.sent]
    exact hnum.nodup
  · rw [hq.met]
    exact hnum.met
  · rw [hq.written, hq.sent]
    exact hnum.none
  · rw [hq.written] at hd
    rw [hq.sent] at hk
    rw [hq.last]
    exact hnum.bound d hd k hk
  · rw [hq.sent]
    exact hnum.entered k (hq.entered k hk)

/-- The other way round: a second RTPS writer begins with a number that has
been reported before. -/
theorem repeated_write {data d : RouterData} (h : Known p false s) (hone : OneQos s.written)
    (hd : d ∈ s.written) (hne : d.writerQos ≠ data.writerQos) (hw : Wrote p data s s') : ¬ s'.sent.Nodup := by
  have hzero : last s.writer data.writerQos = 0 := by
    by_contra hlast
    obtain ⟨d', hd', hq⟩ := h.used _ hlast
    simp only [Bool.false_eq_true, false_or] at hq
    exact hne ((hone d hd d' hd').trans hq.symm)
  have hmem : next s data.writerQos ∈ s.sent := by
    rw [next, hzero]
    exact h.first (List.ne_nil_of_mem hd)
  rw [hw.sent]
  intro hnd
  exact (List.nodup_append.mp hnd).2.2 _ hmem _ (by simp) rfl

/-- Both halves: what is known, and how the numbers stand. -/
structure Inv (p : CommonParticipant) (one : Bool) (s : State) : Prop where
  known : Known p one s
  numbered : one = true ∨ OneQos s.written → Numbered s
  repeated : one = false → ¬ OneQos s.written → ¬ s.sent.Nodup

theorem inv_step {a : Action} (h : Inv p one s) (hs : step s a = some s') : Inv p one s' := by
  refine ⟨known_step h.known hs, fun hcond => ?_, fun hone hmany => ?_⟩
  · rcases step_cases h.known.fit hs with hq | ⟨data, hw⟩
    · rw [hq.written] at hcond
      exact numbered_quiet (h.numbered hcond) hq
    · rw [hw.written] at hcond
      refine numbered_write h.known (h.numbered ?_) hw ?_
      · exact hcond.imp_right fun hq => (oneQos_append hq).1
      · exact fun d hd => hcond.imp_right fun hq => (oneQos_append hq).2 d hd
  · rcases step_cases h.known.fit hs with hq | ⟨data, hw⟩
    · rw [hq.written] at hmany
      rw [hq.sent]
      exact h.repeated hone hmany
    · by_cases hold : OneQos s.written
      · have hother : ∃ d ∈ s.written, d.writerQos ≠ data.writerQos := by
          by_contra hall
          push Not at hall
          apply hmany
          rw [hw.written]
          intro d hd d' hd'
          rw [List.mem_append, List.mem_singleton] at hd hd'
          rcases hd with hd | rfl <;> rcases hd' with hd' | rfl
          · exact hold d hd d' hd'
          · exact hall d hd
          · exact (hall d' hd').symm
          · rfl
        obtain ⟨d, hd, hne⟩ := hother
        subst hone
        exact repeated_write h.known hold hd hne hw
      · rw [hw.sent]
        exact fun hnd => h.repeated hone hold (List.nodup_append.mp hnd).1

theorem inv_create (p : CommonParticipant) (topic : DdsTopic) (entityId : EntityId) :
    Inv p (oneWriter topic) (create p topic entityId) := by
  refine ⟨known_create p topic entityId, fun _ => ?_, fun _ hmany => absurd ?_ hmany⟩
  · exact ⟨List.nodup_nil, rfl, fun _ => rfl, fun d hd => absurd hd (by simp [create]), fun k hk => by cases hk⟩
  · exact fun d hd => absurd hd (by simp [create])

end Invariants

/-- In every run of a proxy client the reported numbers are distinct and no
addition to the registry meets its key, if and only if the topic has neither
partitions nor exclusive ownership or all successful writes had one QoS. -/
theorem numbers_distinct_iff (p : CommonParticipant) (topic : DdsTopic) (entityId : EntityId)
    (as : List Action) (s : State) (hrun : run step (create p topic entityId) as = some s) :
    (s.sent.Nodup ∧ s.met = false) ↔
      (topic.topicQos.hasPartitions = false ∧ topic.topicQos.hasOwnership = false) ∨ OneQos s.written := by
  have hinv : Inv p (oneWriter topic) s :=
    run_invariant (fun _ _ _ hI hs => inv_step hI hs) (inv_create p topic entityId) hrun
  have hone : oneWriter topic = true ↔
      topic.topicQos.hasPartitions = false ∧ topic.topicQos.hasOwnership = false := by
    simp [oneWriter]
  rw [← hone]
  constructor
  · intro ⟨hnd, _⟩
    by_contra hno
    rw [not_or, Bool.not_eq_true] at hno
    exact hinv.repeated hno.1 hno.2 hnd
  · intro hcond
    have hnum := hinv.numbered hcond
    exact ⟨hnum.nodup, hnum.met⟩

/-! A topic with partitions: two requests with the QoS of one client, and one
with the QoS of another. -/

def partitioned : DdsTopic :=
  { topicName := "rq/add_two_intsRequest", typeName := "AddTwoInts_Request_"
    topicQos := { reliabilityQos := .reliable, usePartitions := true } }

def plainParticipant : CommonParticipant := { id := ⟨"b"⟩, guidPrefix := 2, isRepeater := false }

def requestIn (partition : String) : RouterData :=
  { length := 4
    maxSize := 4
    sourceGuid := ⟨5, 1⟩
    sourceTimestamp := 0
    participantReceiver := ⟨"a"⟩
    instanceHandle := 0
    kind := .alive
    sampleIdentity := SampleIdentity.unknown
    relatedSampleIdentity := SampleIdentity.unknown
    originSequenceNumber := 1
    writerQos := { partitions := [partition] } }

def writeIn (partition : String) : Action :=
  .write (requestIn partition) (⟨"a"⟩, SampleIdentity.unknown) {}

theorem two_partitions_one_number :
    ¬ ∀ (p : CommonParticipant) (topic : DdsTopic) (entityId : EntityId) (as : List Action) (s : State),
      run step (create p topic entityId) as = some s → s.sent.Nodup ∧ s.met = false := by
  intro h
  have hrun : ∃ s, run step (create plainParticipant partitioned 1) [.enable, writeIn "A", writeIn "B"] = some s ∧
      s.sent = [1, 1] ∧ s.met = true := ⟨_, rfl, by decide, by decide⟩
  obtain ⟨s, hrun, hsent, -⟩ := hrun
  have hnd := (h _ _ _ _ s hrun).1
  rw [hsent] at hnd
  exact absurd hnd (by decide)

theorem one_partition_two_numbers :
    ∃ s, run step (create plainParticipant partitioned 1) [.enable, writeIn "A", writeIn "A"] = some s ∧
      s.sent = [1, 2] ∧ s.sent.Nodup ∧ s.met = false := by
  have hrun : ∃ s, run step (create plainParticipant partitioned 1) [.enable, writeIn "A", writeIn "A"] = some s ∧
      s.sent = [1, 2] ∧ OneQos s.written := ⟨_, rfl, by decide, by decide⟩
  obtain ⟨s, hrun, hsent, hone⟩ := hrun
  exact ⟨s, hrun, hsent, (numbers_distinct_iff _ _ _ _ s hrun).mpr (.inr hone)⟩

end DDSRouter.ProxyClient
