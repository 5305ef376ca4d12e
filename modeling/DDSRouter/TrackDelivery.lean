import DDSRouter.BridgeWalks
import DDSRouter.Repeater
import DDSRouter.TrackForwarding

/-!
# What becomes of samples

A sample that the reader of a track receives waits in its history, is taken, or is
dropped by the listener. A task offers what it takes to one writer after another. This
is followed here through every interleaving, with the track enabled and disabled at any
time.
-/
namespace DDSRouter

namespace Reader

/-- What a reader is created with. -/
def identity (r : Reader) : ParticipantId × Guid × DdsTopic := (r.participantId, r.guid, r.topic)

variable {r r' : Reader}

theorem comeFromThisParticipant_congr (h : r.identity = r'.identity) (c : CacheChange) :
    r.comeFromThisParticipant c = r'.comeFromThisParticipant c := by
  have hguid : r.guid = r'.guid := congrArg (fun x => x.2.1) h
  rw [comeFromThisParticipant, comeFromThisParticipant, hguid]

theorem isDataCorrect_congr (h : r.identity = r'.identity) (c : CacheChange) :
    r.isDataCorrect c = r'.isDataCorrect c := by
  have htopic : r.topic = r'.topic := congrArg (fun x => x.2.2) h
  rw [isDataCorrect, isDataCorrect, htopic]

theorem fillReceivedData_congr (h : r.identity = r'.identity) (c : CacheChange) :
    r.fillReceivedData c = r'.fillReceivedData c := by
  have hid : r.participantId = r'.participantId := congrArg (fun x => x.1) h
  have htopic : r.topic = r'.topic := congrArg (fun x => x.2.2) h
  rw [fillReceivedData, fillReceivedData, hid, htopic]

/-- The listener keeps nothing of the participant itself, and while the reader is disabled
it keeps what is reliable only. -/
def refuses (r : Reader) (c : CacheChange) : Bool :=
  r.comeFromThisParticipant c || (!r.enabled && !r.topic.topicQos.isReliable)

theorem onNewCacheChangeAdded_fst (r : Reader) (n : Nat) (c : CacheChange) :
    (r.onNewCacheChangeAdded n c).1 = if r.refuses c then r.remove n else r := by
  unfold onNewCacheChangeAdded refuses
  cases r.comeFromThisParticipant c <;> cases r.enabled <;> cases r.topic.topicQos.isReliable <;> rfl

/-- What `remove` takes out of the history. -/
theorem numbers_remove_perm (r : Reader) (n : Nat) :
    ((r.remove n).numbers ++ r.numbers.filter (· = n)).Perm r.numbers := by
  have hkept : (r.remove n).numbers = r.numbers.filter fun m => !decide (m = n) := by
    rw [numbers, numbers, List.filter_map, remove]
    congr 1
    exact List.filter_congr fun e _ => by simp
  rw [hkept]
  exact List.perm_append_comm.trans (List.filter_append_perm _ _)

end Reader

namespace Track

open Threads

/-- What the outside and the listener do to the history of the reader. -/
inductive Event where
  | received (c : CacheChange)
  | dropped (n : Nat)
  deriving DecidableEq, Repr

def receivedOf (events : List Event) : List CacheChange :=
  events.filterMap fun
    | .received c => some c
    | .dropped _ => none

def droppedOf (events : List Event) : List Nat :=
  events.filterMap fun
    | .received _ => none
    | .dropped n => some n

def callbackDrops (s : State) : CallbackPc → List Nat
  | .added n c => if s.reader.refuses c then s.reader.numbers.filter (· = n) else []
  | .test _ | .add _ | .emit _ => []

/-- The events of a step. -/
def events (s : State) : Action → List Event
  | .arrive c => [.received c]
  | .callback i => ((s.callbacks[i]?).elim [] (callbackDrops s)).map .dropped
  | .control =>
    match s.control with
    | .enCallback pc => (callbackDrops s pc).map .dropped
    | _ => []
  | .enable | .disable | .start | .transmit _ _ => []

theorem receivedOf_nil : receivedOf [] = [] := rfl

theorem droppedOf_nil : droppedOf [] = [] := rfl

@[simp] theorem receivedOf_append (l m : List Event) : receivedOf (l ++ m) = receivedOf l ++ receivedOf m :=
  List.filterMap_append ..

@[simp] theorem droppedOf_append (l m : List Event) : droppedOf (l ++ m) = droppedOf l ++ droppedOf m :=
  List.filterMap_append ..

@[simp] theorem receivedOf_dropped (ns : List Nat) : receivedOf (ns.map .dropped) = [] := by
  induction ns with
  | nil => rfl
  | cons n ns ih => exact ih

@[simp] theorem droppedOf_dropped (ns : List Nat) : droppedOf (ns.map .dropped) = ns := by
  induction ns with
  | nil => rfl
  | cons n ns ih => exact congrArg (n :: ·) ih

/-! ### The reader -/

/-- What a step does on the side of the reader. -/
inductive Flow (s s' : State) : List Event → Prop where
  | received (c : CacheChange) (hr : s'.reader = s.reader.received s.log.arrivals c)
      (ha : s'.log.arrivals = s.log.arrivals + 1) (ht : s'.log.taken = s.log.taken)
      (hf : s'.log.forwarded = s.log.forwarded) : Flow s s' [.received c]
  | heard (drops : List Nat) (hi : s'.reader.identity = s.reader.identity)
      (hh : s'.reader.history.Sublist s.reader.history) (hn : (s'.reader.numbers ++ drops).Perm s.reader.numbers)
      (hd : ∀ n ∈ drops, ∃ c, CallbackPc.added n c ∈ s.reports ∧ s.reader.refuses c = true)
      (ha : s'.log.arrivals = s.log.arrivals) (ht : s'.log.taken = s.log.taken)
      (hf : s'.log.forwarded = s.log.forwarded) : Flow s s' (drops.map .dropped)
  | discarded (n : Nat) (c : CacheChange) (rest : List (Arrival CacheChange)) (hh : s.reader.history = (n, c) :: rest)
      (hc : s.reader.isDataCorrect c ≠ .ok) (hi : s'.reader.identity = s.reader.identity) (hr : s'.reader.history = rest)
      (ha : s'.log.arrivals = s.log.arrivals) (ht : s'.log.taken = n :: s.log.taken)
      (hf : s'.log.forwarded = s.log.forwarded) : Flow s s' []
  | forwarded (n : Nat) (c : CacheChange) (rest : List (Arrival CacheChange)) (hh : s.reader.history = (n, c) :: rest)
      (hc : s.reader.isDataCorrect c = .ok) (hi : s'.reader.identity = s.reader.identity) (hr : s'.reader.history = rest)
      (ha : s'.log.arrivals = s.log.arrivals) (ht : s'.log.taken = n :: s.log.taken)
      (hf : s'.log.forwarded = s.log.forwarded ++ [(n, s.reader.fillReceivedData c)]) : Flow s s' []

variable {targets : List ParticipantId} {w w' : Writers} {s s' : State} {a : Action}

theorem flow_congr {t : State} {es : List Event} (h : Flow s t es) (hr : s'.reader = t.reader) (hl : s'.log = t.log) :
    Flow s s' es := by
  cases h with
  | received c hr' ha ht hf => exact .received c (hr.trans hr') (hl ▸ ha) (hl ▸ ht) (hl ▸ hf)
  | heard drops hi hh hn hd ha ht hf => exact .heard drops (hr ▸ hi) (hr ▸ hh) (hr ▸ hn) hd (hl ▸ ha) (hl ▸ ht) (hl ▸ hf)
  | discarded n c rest hh hc hi hr' ha ht hf =>
    exact .discarded n c rest hh hc (hr ▸ hi) (hr ▸ hr') (hl ▸ ha) (hl ▸ ht) (hl ▸ hf)
  | forwarded n c rest hh hc hi hr' ha ht hf =>
    exact .forwarded n c rest hh hc (hr ▸ hi) (hr ▸ hr') (hl ▸ ha) (hl ▸ ht) (hl ▸ hf)

theorem flow_quiet (hi : s'.reader.identity = s.reader.identity) (hh : s'.reader.history = s.reader.history)
    (ha : s'.log.arrivals = s.log.arrivals) (ht : s'.log.taken = s.log.taken)
    (hf : s'.log.forwarded = s.log.forwarded) : Flow s s' [] := by
  refine .heard [] hi (by rw [hh]) ?_ (by simp) ha ht hf
  rw [Reader.numbers, hh, List.append_nil]
  exact .refl _

/-- A step of the listener, or of `enable` in its place. -/
theorem flow_callback {pc : CallbackPc} (hpc : pc ∈ s.reports) (hr : s'.reader = (callbackStep s pc).1.reader)
    (hl : s'.log = (callbackStep s pc).1.log) : Flow s s' ((callbackDrops s pc).map .dropped) := by
  obtain ⟨done, k, hlog⟩ := callbackStep_log s pc
  rw [hlog] at hl
  have hquiet : s'.reader = s.reader → Flow s s' [] := fun h =>
    flow_quiet (by rw [h]) (by rw [h]) (by rw [hl]) (by rw [hl]) (by rw [hl])
  have hkept : (callbackStep s pc).1.reader = s.reader → callbackDrops s pc = [] →
      Flow s s' ((callbackDrops s pc).map .dropped) := by
    intro hk hd
    rw [hd]
    exact hquiet (hr.trans hk)
  cases pc with
  | added n c =>
    cases hc : s.reader.refuses c with
    | false =>
      refine hkept ?_ (by simp [callbackDrops, hc])
      simp [callbackStep, Reader.onNewCacheChangeAdded_fst, hc]
    | true =>
      have hremove : s'.reader = s.reader.remove n := by
        rw [hr]
        simp [callbackStep, Reader.onNewCacheChangeAdded_fst, hc]
      have hdrops : callbackDrops s (.added n c) = s.reader.numbers.filter (· = n) := by simp [callbackDrops, hc]
      rw [hdrops]
      refine .heard _ (by rw [hremove]; rfl) (by rw [hremove]; exact List.filter_sublist) ?_ ?_ (by rw [hl]) (by rw [hl])
        (by rw [hl])
      · rw [hremove]
        exact s.reader.numbers_remove_perm n
      · intro m hm
        have heq : m = n := by simpa using (List.mem_filter.mp hm).2
        exact ⟨c, heq ▸ hpc, hc⟩
  | test n =>
    refine hkept ?_ rfl
    simp only [callbackStep]
    split
    · rfl
    · cases n <;> rfl
  | add n =>
    refine hkept ?_ rfl
    simp only [callbackStep]
    split
    · rfl
    · cases n <;> rfl
  | emit n =>
    refine hkept ?_ rfl
    cases n <;> rfl

/-- What `take` does to the history, with the check that decides it. -/
theorem take_flow {found : Bool} {t : State} {x : Option TransmitPc}
    (h : transmitStep targets w s found .take = some (t, x)) : Flow s t [] := by
  cases he : s.reader.enabled with
  | false =>
    simp only [transmitStep, Reader.take, he, Bool.false_eq_true, if_false, Option.some.injEq, Prod.mk.injEq] at h
    obtain ⟨rfl, -⟩ := h
    exact flow_quiet rfl rfl rfl rfl rfl
  | true =>
    cases hh : s.reader.history with
    | nil =>
      simp only [transmitStep, Reader.take, he, hh, if_true, Option.some.injEq, Prod.mk.injEq] at h
      obtain ⟨rfl, -⟩ := h
      exact flow_quiet rfl rfl rfl rfl rfl
    | cons e rest =>
      obtain ⟨n, c⟩ := e
      cases found with
      | false =>
        simp only [transmitStep, Reader.take, he, hh, if_true, Bool.not_false, Option.some.injEq, Prod.mk.injEq] at h
        obtain ⟨rfl, -⟩ := h
        exact flow_quiet rfl rfl rfl rfl rfl
      | true =>
        by_cases hc : s.reader.isDataCorrect c = .ok
        · simp only [transmitStep, Reader.take, he, hh, hc, if_true, Bool.not_true, Bool.false_eq_true, if_false, ne_eq,
            not_true_eq_false, Option.some.injEq, Prod.mk.injEq] at h
          obtain ⟨rfl, -⟩ := h
          exact .forwarded n c rest hh hc rfl rfl rfl rfl rfl
        · simp only [transmitStep, Reader.take, he, hh, hc, if_true, Bool.not_true, Bool.false_eq_true, if_false, ne_eq,
            not_false_eq_true, Option.some.injEq, Prod.mk.injEq] at h
          obtain ⟨rfl, -⟩ := h
          exact .discarded n c rest hh hc rfl rfl rfl rfl rfl

theorem step_flow (hs : step targets (w, s) a = some (w', s')) : Flow s s' (events s a) := by
  cases a with
  | arrive c =>
    cases hs
    exact .received c rfl rfl rfl rfl
  | callback i =>
    obtain ⟨pc, hpc, -, rfl⟩ := step_callback_inv hs
    have hevents : events s (.callback i) = (callbackDrops s pc).map .dropped := by simp [events, hpc]
    rw [hevents]
    exact flow_callback (List.mem_append_left _ (mem_of_at hpc)) rfl rfl
  | enable | disable =>
    obtain ⟨-, c, rfl⟩ := step_called (by simp) hs
    exact flow_quiet rfl rfl rfl rfl rfl
  | control =>
    cases step_control_inv hs with
    | enCallback pc hc =>
      have hevents : events s .control = (callbackDrops s pc).map .dropped := by simp [events, hc]
      rw [hevents]
      exact flow_callback (by simp [State.reports, hc, ControlPc.report]) rfl rfl
    | enReader hc =>
      have hevents : events s .control = [] := by simp [events, hc]
      rw [hevents]
      have hreader : s.reader.enable.1.identity = s.reader.identity ∧ s.reader.enable.1.history = s.reader.history := by
        unfold Reader.enable
        split <;> exact ⟨rfl, rfl⟩
      exact flow_quiet hreader.1 hreader.2 rfl rfl rfl
    | enSet hc | enWriter p rest hc | disSet hc | disWait hc | disReader hc | disWriter p rest hc | disDone hc =>
      have hevents : events s .control = [] := by simp [events, hc]
      rw [hevents]
      exact flow_quiet rfl rfl rfl rfl rfl
  | start =>
    obtain ⟨-, -, rfl⟩ := step_start_inv hs
    exact flow_quiet rfl rfl rfl rfl rfl
  | transmit i found =>
    simp only [step, Option.bind_eq_some_iff, Option.map_eq_some_iff, Prod.mk.injEq] at hs
    obtain ⟨pc, -, ⟨t, x⟩, ht, -, rfl⟩ := hs
    refine flow_congr (t := t) ?_ rfl rfl
    cases pc with
    | take => exact take_flow ht
    | lock | loop | store | sub | write | unlock =>
      cases transmitStep_inv ht <;> exact flow_quiet rfl rfl rfl rfl rfl

/-- No thread comes to a report that it has not begun. -/
theorem callbackStep_added (s : State) (pc : CallbackPc) (n : Nat) (c : CacheChange) :
    (callbackStep s pc).2 ≠ some (.added n c) := by
  cases pc with
  | added m d =>
    simp only [callbackStep]
    split <;> simp
  | test m =>
    simp only [callbackStep]
    split <;> simp
  | add m =>
    simp only [callbackStep]
    split <;> simp
  | emit m => simp [callbackStep]

theorem transmitMove_reports {pc : TransmitPc} {t : State} {x : Option TransmitPc}
    (hm : TransmitMove targets w s pc t x) : t.reports = s.reports := by
  have hsame : t.callbacks = s.callbacks ∧ t.control = s.control := by cases hm <;> exact ⟨rfl, rfl⟩
  rw [State.reports, State.reports, hsame.1, hsame.2]

/-- A report is about a change that has arrived. -/
theorem step_added (hs : step targets (w, s) a = some (w', s')) {n : Nat} {c : CacheChange}
    (h : CallbackPc.added n c ∈ s'.reports) :
    CallbackPc.added n c ∈ s.reports ∨ a = .arrive c ∧ n = s.log.arrivals := by
  by_cases ha : ∃ d, a = .arrive d
  · obtain ⟨d, rfl⟩ := ha
    cases hs
    simp only [State.reports, List.mem_append, List.mem_singleton, CallbackPc.added.injEq] at h
    rcases h with (h | ⟨rfl, rfl⟩) | h
    · exact .inl (List.mem_append_left _ h)
    · exact .inr ⟨rfl, rfl⟩
    · exact .inl (List.mem_append_right _ h)
  · left
    have harrivals : s'.log.arrivals = s.log.arrivals := by
      rw [step_arrivals hs]
      cases a <;> simp_all [Action.arriving]
    cases step_move hs with
    | arrive d => simp at harrivals
    | report hr =>
      obtain ⟨j, pc, cs, k, hj, hreports, -⟩ := hr
      rw [State.reports] at h
      simp only [hreports] at h
      rcases mem_advance h with h | h
      · exact h
      · exact absurd h (callbackStep_added s pc n c)
    | control e r k hold hr hnew =>
      rcases List.mem_append.mp h with h | h
      · exact List.mem_append_left _ h
      · exact absurd (hnew _ h) (by simp)
    | start => exact h
    | transmit i pc t x hpc hm =>
      rw [← transmitMove_reports hm]
      simpa only [State.reports] using h

/-- What is forwarded of a sample that is taken. -/
def forwards (r : Reader) (received : List CacheChange) (n : Nat) : Option (Arrival DataReceived) :=
  (received[n]?).bind fun c => if r.isDataCorrect c = .ok then some (n, r.fillReceivedData c) else none

/-- The samples of a reader, against what it has received and what its listener has
dropped. The log has the sample that was taken last in front. -/
structure Sourced (r₀ : Reader) (received : List CacheChange) (dropped : List Nat) (s : State) : Prop where
  identity : s.reader.identity = r₀.identity
  arrivals : s.log.arrivals = received.length
  history : ∀ n c, (n, c) ∈ s.reader.history → received[n]? = some c
  reports : ∀ n c, CallbackPc.added n c ∈ s.reports → received[n]? = some c
  places : (s.reader.numbers ++ (s.log.taken ++ dropped)).Perm (List.range received.length)
  forwarded : s.log.forwarded = s.log.taken.reverse.filterMap (forwards r₀ received)
  refused : ∀ n ∈ dropped, ∃ c, received[n]? = some c ∧
    (r₀.comeFromThisParticipant c = true ∨ r₀.topic.topicQos.isReliable = false)

variable {r₀ : Reader} {received : List CacheChange} {dropped : List Nat}

theorem Sourced.lt (h : Sourced r₀ received dropped s) {n : Nat} (hn : n ∈ s.log.taken) : n < received.length := by
  have hmem : n ∈ s.reader.numbers ++ (s.log.taken ++ dropped) :=
    List.mem_append_right _ (List.mem_append_left _ hn)
  exact List.mem_range.mp (h.places.mem_iff.mp hmem)

theorem sourced_init (r : Reader) : Sourced r [] [] (init r) :=
  ⟨rfl, rfl, by simp [init], by simp [init, State.reports, ControlPc.report], .refl _, rfl, by simp⟩

/-- The first change of the history is taken, and forwarded if it is correct. -/
theorem sourced_taken (h : Sourced r₀ received dropped s) {n : Nat} {c : CacheChange}
    {rest : List (Arrival CacheChange)} (hh : s.reader.history = (n, c) :: rest) (hi : s'.reader.identity = s.reader.identity)
    (hr : s'.reader.history = rest) (ha : s'.log.arrivals = s.log.arrivals) (ht : s'.log.taken = n :: s.log.taken)
    (hf : s'.log.forwarded = s.log.forwarded ++
      if s.reader.isDataCorrect c = .ok then [(n, s.reader.fillReceivedData c)] else [])
    (hreports : ∀ n c, CallbackPc.added n c ∈ s'.reports → received[n]? = some c) :
    Sourced r₀ received dropped s' := by
  have hnumbers : s.reader.numbers = n :: s'.reader.numbers := by
    rw [Reader.numbers, Reader.numbers, hh, hr]
    rfl
  have hgot : received[n]? = some c := h.history n c (by rw [hh]; exact List.mem_cons_self)
  rw [Reader.isDataCorrect_congr h.identity, Reader.fillReceivedData_congr h.identity] at hf
  refine
    { identity := hi.trans h.identity, arrivals := ha.trans h.arrivals
      history := fun m d hmem => h.history m d (by rw [hh]; exact List.mem_cons_of_mem _ (hr ▸ hmem))
      reports := hreports, places := ?_, forwarded := ?_, refused := h.refused }
  · have hplaces := h.places
    rw [hnumbers, List.cons_append] at hplaces
    rw [ht, List.cons_append]
    exact List.perm_middle.trans hplaces
  · rw [hf, ht, h.forwarded, List.reverse_cons, List.filterMap_append]
    congr 1
    by_cases hc : r₀.isDataCorrect c = .ok <;> simp [forwards, hgot, hc]

/-- A step of the reader's side, with what is known of reports after it. -/
theorem sourced_flow {es : List Event} (h : Sourced r₀ received dropped s) (hm : Flow s s' es)
    (hreports : ∀ n c, CallbackPc.added n c ∈ s'.reports →
      CallbackPc.added n c ∈ s.reports ∨ es = [.received c] ∧ n = s.log.arrivals) :
    Sourced r₀ (received ++ receivedOf es) (dropped ++ droppedOf es) s' := by
  -- what was received stays what it was
  have hkeep : ∀ {n : Nat} {c : CacheChange}, received[n]? = some c → (received ++ receivedOf es)[n]? = some c := by
    intro n c hn
    rw [List.getElem?_append_left (List.getElem?_eq_some_iff.mp hn).1]
    exact hn
  have hreports' : ∀ n c, CallbackPc.added n c ∈ s'.reports → (received ++ receivedOf es)[n]? = some c := by
    intro n c hmem
    rcases hreports n c hmem with hold | ⟨rfl, rfl⟩
    · exact hkeep (h.reports n c hold)
    · rw [h.arrivals]
      exact List.getElem?_concat_length
  cases hm with
  | received c hr ha ht hf =>
    have hlast : receivedOf [.received c] = [c] := rfl
    have hnone : droppedOf [.received c] = [] := rfl
    rw [hlast] at hkeep hreports' ⊢
    rw [hnone, List.append_nil]
    refine
      { identity := hr ▸ h.identity, arrivals := ?_, history := fun n d hd => ?_, reports := hreports', places := ?_
        forwarded := ?_, refused := fun n hn => ?_ }
    · rw [ha, h.arrivals, List.length_append, List.length_singleton]
    · rw [hr] at hd
      rcases Reader.mem_history_received.mp hd with hd | hd
      · cases hd
        rw [h.arrivals]
        exact List.getElem?_concat_length
      · exact hkeep (h.history n d hd)
    · rw [hr, ht, List.length_append, List.length_singleton, List.range_succ]
      refine ((Reader.numbers_received _ _ c).append_right _).trans ?_
      rw [h.arrivals, List.cons_append]
      exact (h.places.cons _).trans (List.perm_append_singleton _ _).symm
    · -- a later arrival is nothing to what was taken
      rw [hf, ht, h.forwarded]
      refine List.filterMap_congr fun n hn => ?_
      rw [forwards, forwards, List.getElem?_append_left (h.lt (List.mem_reverse.mp hn))]
    · obtain ⟨d, hd, hrest⟩ := h.refused n hn
      exact ⟨d, hkeep hd, hrest⟩
  | heard drops hi hh hn hd ha ht hf =>
    rw [receivedOf_dropped, List.append_nil] at hreports' ⊢
    rw [droppedOf_dropped]
    refine
      { identity := hi.trans h.identity, arrivals := ha.trans h.arrivals
        history := fun n d hmem => h.history n d (hh.subset hmem), reports := hreports', places := ?_
        forwarded := by rw [hf, ht, h.forwarded], refused := fun n hmem => ?_ }
    · rw [ht]
      refine .trans ?_ h.places
      have hmove : (s'.reader.numbers ++ (s.log.taken ++ (dropped ++ drops))).Perm
          (s'.reader.numbers ++ drops ++ (s.log.taken ++ dropped)) := by
        rw [List.append_assoc, ← List.append_assoc s.log.taken]
        exact List.perm_append_comm.append_left _
      exact hmove.trans (hn.append_right _)
    · rcases List.mem_append.mp hmem with hmem | hmem
      · exact h.refused n hmem
      · obtain ⟨c, hc, href⟩ := hd n hmem
        refine ⟨c, h.reports n c hc, ?_⟩
        have htopic : s.reader.topic = r₀.topic := congrArg (fun x => x.2.2) h.identity
        rw [Reader.refuses, Reader.comeFromThisParticipant_congr h.identity, htopic] at href
        cases hown : r₀.comeFromThisParticipant c with
        | true => exact .inl rfl
        | false => exact .inr (by simp_all)
  | discarded n c rest hh hc hi hr ha ht hf =>
    rw [receivedOf_nil, List.append_nil] at hreports' ⊢
    rw [droppedOf_nil, List.append_nil]
    exact sourced_taken h hh hi hr ha ht (by rw [hf, if_neg hc, List.append_nil]) hreports'
  | forwarded n c rest hh hc hi hr ha ht hf =>
    rw [receivedOf_nil, List.append_nil] at hreports' ⊢
    rw [droppedOf_nil, List.append_nil]
    exact sourced_taken h hh hi hr ha ht (by rw [hf, if_pos hc]) hreports'

theorem sourced_step (h : Sourced r₀ received dropped s) (hs : step targets (w, s) a = some (w', s')) :
    Sourced r₀ (received ++ receivedOf (events s a)) (dropped ++ droppedOf (events s a)) s' := by
  refine sourced_flow h (step_flow hs) fun n c hmem => ?_
  rcases step_added hs hmem with hold | ⟨rfl, hn⟩
  · exact .inl hold
  · exact .inr ⟨rfl, hn⟩

/-! ### The writers -/

/-- The sample that a task at this point has still to offer to the writer. -/
def TransmitPc.owes (q : ParticipantId) : TransmitPc → Option (Arrival DataReceived)
  | .write n data rest => if q ∈ rest then some (n, data) else none
  | .lock | .loop | .store | .take | .sub | .unlock => none

/-- What tasks have still to offer to the writer. -/
def State.inHand (s : State) (q : ParticipantId) : List (Arrival DataReceived) := s.running.filterMap (TransmitPc.owes q)

/-- Every writer of the track is offered what is forwarded, in that order. -/
structure Offering (targets : List ParticipantId) (s : State) : Prop where
  nodup : ∀ n data rest, .write n data rest ∈ s.running → rest.Nodup
  offers : ∀ q ∈ targets, s.offers q ++ s.inHand q = s.log.forwarded

theorem owes_of_not_holding (q : ParticipantId) (pc : TransmitPc) (h : pc.holding = false) : pc.owes q = none := by
  cases pc with
  | lock => rfl
  | loop | store | take | sub | write | unlock => cases h

theorem one_holding (ht : Tidy s) : s.running.countP TransmitPc.holding ≤ 1 := by
  rw [ht.mutex]
  cases s.onTransmission <;> decide

/-- Only the task that holds the mutex has a sample in its hand. -/
theorem inHand_length_le (ht : Tidy s) (q : ParticipantId) : (s.inHand q).length ≤ 1 := by
  rw [State.inHand, List.length_filterMap_eq_countP]
  refine (List.countP_mono_left fun pc _ howes => ?_).trans (one_holding ht)
  cases hh : pc.holding with
  | true => rfl
  | false => simp [owes_of_not_holding q pc hh] at howes

theorem offering_init (targets : List ParticipantId) (r : Reader) : Offering targets (init r) :=
  ⟨by simp [init], fun _ _ => rfl⟩

theorem offering_congr (h : Offering targets s) (hw : s'.log.writes = s.log.writes)
    (hf : s'.log.forwarded = s.log.forwarded) (hr : s'.running = s.running) : Offering targets s' := by
  refine ⟨fun n data rest hmem => h.nodup n data rest (hr ▸ hmem), fun q hq => ?_⟩
  have ho := h.offers q hq
  rw [State.offers, State.inHand] at ho ⊢
  rw [hw, hf, hr]
  exact ho

/-- A task goes on without a sample in its hand, before or after. -/
theorem offering_quiet {i : Nat} {pc : TransmitPc} {t : State} {x : Option TransmitPc} (h : Offering targets s)
    (hpc : s.running[i]? = some pc) (hw : t.log.writes = s.log.writes) (hf : t.log.forwarded = s.log.forwarded)
    (hnone : ∀ q, pc.owes q = none) (hnext : ∀ n data rest, x ≠ some (.write n data rest)) :
    Offering targets { t with running := advance s.running i x } := by
  refine ⟨fun n data rest hmem => ?_, fun q hq => ?_⟩
  · rcases mem_advance hmem with hmem | hx
    · exact h.nodup n data rest hmem
    · exact absurd hx (hnext n data rest)
  · have hx : x.bind (TransmitPc.owes q) = none := by
      cases x with
      | none => rfl
      | some pc' =>
        cases pc' with
        | write n data rest => exact absurd rfl (hnext n data rest)
        | lock | loop | store | take | sub | unlock => rfl
    have ho := h.offers q hq
    rw [State.offers, State.inHand] at ho ⊢
    simp only [hw, hf, filterMap_advance_of_none hpc (hnone q) hx]
    exact ho

/-- The task that holds the mutex goes on; no other one has a sample in its hand. -/
theorem offering_task {i : Nat} {pc : TransmitPc} {t : State} {x : Option TransmitPc} (ht : Tidy s)
    (h : Offering targets s) (hpc : s.running[i]? = some pc) (hheld : pc.holding = true)
    (hnext : ∀ n data rest, x = some (.write n data rest) → rest.Nodup)
    (ho : ∀ q ∈ targets, s.offers q ++ (pc.owes q).toList = s.log.forwarded →
      t.offers q ++ (x.bind (TransmitPc.owes q)).toList = t.log.forwarded) :
    Offering targets { t with running := advance s.running i x } := by
  have hone := one_holding ht
  refine ⟨fun n data rest hmem => ?_, fun q hq => ?_⟩
  · rcases mem_advance hmem with hmem | hx
    · exact h.nodup n data rest hmem
    · exact hnext n data rest hx
  · have hold := h.offers q hq
    rw [State.inHand, filterMap_of_at (owes_of_not_holding q) hone hpc hheld] at hold
    rw [State.inHand]
    simp only [filterMap_advance (owes_of_not_holding q) hone hpc hheld]
    exact ho q hq hold

theorem offering_transmit {i : Nat} {pc : TransmitPc} {t : State} {x : Option TransmitPc} (hnd : targets.Nodup)
    (ht : Tidy s) (h : Offering targets s) (hpc : s.running[i]? = some pc) (hm : TransmitMove targets w s pc t x) :
    Offering targets { t with running := advance s.running i x } := by
  cases hm with
  | lock | stay | leave | store | noData | retry | discarded | last | again | unlock =>
    exact offering_quiet h hpc rfl rfl (fun _ => rfl) (by simp)
  | written n data => exact offering_quiet h hpc rfl rfl (fun _ => rfl) (by simp)
  | taken n c rest he hh =>
    refine offering_task ht h hpc rfl (fun m data rest' hx => ?_) fun q hq ho => ?_
    · cases hx
      exact hnd
    · rw [State.offers] at ho ⊢
      simpa [TransmitPc.owes, hq] using ho
  | write n data p rest =>
    have hnodup := List.nodup_cons.mp (h.nodup n data (p :: rest) (mem_of_at hpc))
    refine offering_task ht h hpc rfl (fun m data' rest' hx => ?_) fun q hq ho => ?_
    · cases hx
      exact hnodup.2
    · rw [State.offers] at ho ⊢
      by_cases hp : q = p
      · subst hp
        simpa [TransmitPc.owes, hnodup.1] using ho
      · simpa [TransmitPc.owes, hp, Ne.symm hp] using ho

theorem offering_step (hnd : targets.Nodup) (ht : Tidy s) (h : Offering targets s)
    (hs : step targets (w, s) a = some (w', s')) : Offering targets s' := by
  cases step_move hs with
  | arrive c => exact offering_congr h rfl rfl rfl
  | report hr =>
    obtain ⟨j, pc, cs, c, -, -, -⟩ := hr
    obtain ⟨done, k, hlog⟩ := callbackStep_log s pc
    obtain ⟨st, r, q, l, hf⟩ := callbackStep_frame s pc
    exact offering_congr h (by simp only [hlog]) (by simp only [hlog]) (by simp only [hf])
  | control e r c hold hr hnew => exact offering_congr h rfl rfl rfl
  | start hq =>
    refine ⟨fun n data rest hmem => ?_, fun q hq => ?_⟩
    · rcases List.mem_append.mp hmem with hmem | hmem
      · exact h.nodup n data rest hmem
      · simp at hmem
    · have ho := h.offers q hq
      rw [State.offers, State.inHand] at ho ⊢
      have hlock : [TransmitPc.lock].filterMap (TransmitPc.owes q) = [] := rfl
      rw [List.filterMap_append, hlock, List.append_nil]
      exact ho
  | transmit i pc t x hpc hm => exact offering_transmit hnd ht h hpc hm

end Track

end DDSRouter
