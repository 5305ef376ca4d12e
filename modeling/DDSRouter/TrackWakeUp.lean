import DDSRouter.Track

/-!
# The wake-up protocol of a track

`data_available_status_` doubles as a lock: only a callback that finds it at
zero emits a task, so a task that ends and leaves another value behind leaves a
track that nobody wakes up again. The invariant is that a value other than zero
is owed to some task: one whose emission is the next operation of a callback,
one in the queue of the pool, or one that has not left its loop.

The loop has an exit that does not restore the zero, the one on a track that is
no longer enabled.
-/
namespace DDSRouter.Track

open Runs Threads

def CallbackPc.emitting : CallbackPc → Bool
  | .emit _ => true
  | _ => false

/-- The task has not left its loop. -/
def TransmitPc.active : TransmitPc → Bool
  | .unlock => false
  | _ => true

/-- The tasks that a status other than zero can be owed to. -/
def State.tasks (s : State) : Nat :=
  s.reports.countP CallbackPc.emitting + s.queued + s.running.countP TransmitPc.active

/-- No `transmit_` task is queued or running, and none is about to be emitted
by a call of `data_available_` that has already found the status at zero. -/
structure State.NoTask (s : State) : Prop where
  queued : s.queued = 0
  running : s.running = []
  reports : ∀ pc ∈ s.reports, pc.emitting = false

theorem State.NoTask.tasks_eq {s : State} (h : s.NoTask) : s.tasks = 0 := by
  simp [State.tasks, h.queued, h.running, countP_eq_zero_of h.reports]

/-- A status other than zero is owed to a task. -/
def Owed (s : State) : Prop := s.status = noMoreData ∨ 0 < s.tasks

/-- The step is not the exit of the loop of `transmit_` on a track that should
not transmit any more. -/
def StaysInLoop (p : Writers × State) : Action → Prop
  | .transmit i _ => p.2.running[i]? = some .loop → p.2.shouldTransmit = true
  | _ => True

instance (p : Writers × State) : (a : Action) → Decidable (StaysInLoop p a)
  | .transmit i _ =>
    inferInstanceAs (Decidable (p.2.running[i]? = some .loop → p.2.shouldTransmit = true))
  | .arrive _ | .callback _ | .enable | .disable | .control | .start => .isTrue trivial

def emittingNext (x : Option CallbackPc) : Nat := x.elim 0 fun pc => pc.emitting.toNat

/-- A callback never loses a task. -/
theorem callbackStep_tasks (s : State) (pc : CallbackPc) :
    s.queued + pc.emitting.toNat ≤
      (callbackStep s pc).1.queued + emittingNext (callbackStep s pc).2 := by
  cases pc with
  | added n c => simp [callbackStep, CallbackPc.emitting]
  | test n =>
    simp only [callbackStep]
    split
    · simp [CallbackPc.emitting]
    · cases n <;> simp [CallbackPc.emitting]
  | add n =>
    simp only [callbackStep]
    split
    · simp [CallbackPc.emitting]
    · cases n <;> simp [CallbackPc.emitting]
  | emit n => cases n <;> simp [callbackStep, CallbackPc.emitting, emittingNext]

/-- A callback that takes the status away from zero is about to emit. -/
theorem callbackStep_status (s : State) (pc : CallbackPc) (h : s.status = noMoreData) :
    (callbackStep s pc).1.status = noMoreData ∨ 0 < emittingNext (callbackStep s pc).2 := by
  cases pc with
  | added n c => exact .inl h
  | test n =>
    left
    simp only [callbackStep]
    split
    · exact h
    · cases n <;> exact h
  | add n =>
    right
    simp [callbackStep, h, emittingNext, CallbackPc.emitting]
  | emit n =>
    left
    cases n <;> exact h

theorem owed_report {s s' : State} (h : Owed s) (hs : ReportMove s s') : Owed s' := by
  obtain ⟨j, pc, cs, c, hj, hr, -⟩ := hs
  obtain ⟨st, r, q, l, hf⟩ := callbackStep_frame s pc
  have hcount := countP_advance CallbackPc.emitting hj (callbackStep s pc).2
  have hle := toNat_le_countP CallbackPc.emitting hj
  have hmono := callbackStep_tasks s pc
  have hstatus := callbackStep_status s pc
  simp only [emittingNext, hf] at hmono hstatus
  have ht : State.tasks { (callbackStep s pc).1 with callbacks := cs, control := c } =
      (advance s.reports j (callbackStep s pc).2).countP CallbackPc.emitting + q +
        s.running.countP TransmitPc.active := by
    simp only [State.tasks, State.reports, hf, hr]
  rcases h with h | h
  · rcases hstatus h with h' | h'
    · exact .inl (by simpa only [hf] using h')
    · exact .inr (by omega)
  · simp only [State.tasks] at h
    exact .inr (by omega)

/-- A step that touches neither the status nor the tasks. -/
theorem owed_congr {s t : State} (h : Owed s) (hst : t.status = s.status) (ht : t.tasks = s.tasks) :
    Owed t := by
  unfold Owed at h ⊢
  rw [hst, ht]
  exact h

/-- A step of `enable` or `disable` that is not part of a report. -/
theorem tasks_control {s : State} {e : Bool} {r : Reader} {c : ControlPc} (hold : s.control.report = [])
    (hnew : c.report.countP CallbackPc.emitting = 0) :
    State.tasks { s with enabled := e, reader := r, control := c } = s.tasks := by
  simp [State.tasks, State.reports, hold, hnew]

theorem owed_control {targets : List ParticipantId} {w w' : Writers} {s s' : State}
    (h : Owed s) (hs : step targets (w, s) .control = some (w', s')) : Owed s' := by
  cases step_control_inv hs with
  | enCallback pc hc => exact owed_report h (enCallback_reportMove hc)
  | enReader hc =>
    refine owed_congr h rfl (tasks_control (by rw [hc]; rfl) ?_)
    split <;> rfl
  | enSet hc => exact owed_congr h rfl (tasks_control (by rw [hc]; rfl) rfl)
  | enWriter p rest hc => exact owed_congr h rfl (tasks_control (by rw [hc]; rfl) rfl)
  | disSet hc => exact owed_congr h rfl (tasks_control (by rw [hc]; rfl) rfl)
  | disWait hc hm => exact owed_congr h rfl (tasks_control (by rw [hc]; rfl) rfl)
  | disReader hc => exact owed_congr h rfl (tasks_control (by rw [hc]; rfl) rfl)
  | disWriter p rest hc => exact owed_congr h rfl (tasks_control (by rw [hc]; rfl) rfl)
  | disDone hc => exact owed_congr h rfl (tasks_control (by rw [hc]; rfl) rfl)

/-- A task that is still in its loop after its step pays for any status. -/
theorem owed_of_active {s t : State} {i : Nat} {pc pc' : TransmitPc} (hpc : s.running[i]? = some pc)
    (ha : pc'.active = true) (ht : t.running = advance s.running i (some pc')) : Owed t := by
  have hc := countP_advance TransmitPc.active hpc (some pc')
  have hle := toNat_le_countP TransmitPc.active hpc
  simp only [Option.elim_some, ha, Bool.toNat_true] at hc
  right
  simp only [State.tasks, ht]
  omega

theorem owed_transmit {targets : List ParticipantId} {w w' : Writers} {s s' : State} {i : Nat}
    {found : Bool} (h : Owed s) (hstay : StaysInLoop (w, s) (.transmit i found))
    (hs : step targets (w, s) (.transmit i found) = some (w', s')) : Owed s' := by
  obtain ⟨pc, t, x, hpc, hm, -, rfl⟩ := step_transmit_inv hs
  cases hm with
  | lock hl => exact owed_of_active hpc rfl rfl
  | stay hst => exact owed_of_active hpc rfl rfl
  | leave hst =>
    have ht := hstay hpc
    simp [hst] at ht
  | store => exact owed_of_active hpc rfl rfl
  | noData he hh => exact owed_of_active hpc rfl rfl
  | retry => exact owed_of_active hpc rfl rfl
  | discarded n c rest he hh => exact owed_of_active hpc rfl rfl
  | taken n c rest he hh => exact owed_of_active hpc rfl rfl
  | last hst => exact .inl rfl
  | again hst => exact owed_of_active hpc rfl rfl
  | written n data => exact owed_of_active hpc rfl rfl
  | write n data p rest => exact owed_of_active hpc rfl rfl
  | unlock =>
    have hc := countP_advance TransmitPc.active hpc none
    simp only [Option.elim_none, TransmitPc.active, Bool.toNat_false] at hc
    exact owed_congr h rfl (by simp only [State.tasks, State.reports]; omega)

/-- Every step that does not leave the loop early keeps the debt. -/
theorem owed_step {targets : List ParticipantId} {p p' : Writers × State} {a : Action}
    (hstay : StaysInLoop p a) (h : Owed p.2) (hs : step targets p a = some p') : Owed p'.2 := by
  obtain ⟨w, s⟩ := p
  obtain ⟨w', s'⟩ := p'
  cases a with
  | arrive c =>
    cases hs
    refine owed_congr h rfl ?_
    simp only [State.tasks, State.reports, List.countP_append, List.countP_singleton]
    rfl
  | callback i => exact owed_report h (callback_reportMove hs).2
  | enable =>
    obtain ⟨hc, -, ⟨-, rfl⟩ | ⟨-, rfl⟩⟩ := step_enable_inv hs
    · exact h
    · exact owed_congr h rfl (tasks_control (by rw [hc]; rfl) rfl)
  | disable =>
    obtain ⟨hc, -, ⟨-, rfl⟩ | ⟨-, rfl⟩⟩ := step_disable_inv hs
    · exact h
    · exact owed_congr h rfl (tasks_control (by rw [hc]; rfl) rfl)
  | control => exact owed_control h hs
  | start =>
    obtain ⟨hq, -, rfl⟩ := step_start_inv hs
    refine owed_congr h rfl ?_
    simp only [State.tasks, State.reports, List.countP_append, List.countP_singleton,
      TransmitPc.active, if_true]
    omega
  | transmit i found => exact owed_transmit h hstay hs

/-- On an enabled track whose status is zero, a call of `data_available_` that
is not interrupted puts one task into the queue. -/
theorem dataAvailable_emits (targets : List ParticipantId) (w : Writers) {s : State} {i : Nat}
    {n : Option Nat} (hst : s.status = noMoreData) (hen : s.enabled = true)
    (hi : s.callbacks[i]? = some (.test n)) :
    ∃ s', run (step targets) (w, s) [.callback i, .callback i, .callback i] = some (w, s') ∧
      s'.queued = s.queued + 1 := by
  have hlt : i < s.callbacks.length := (List.getElem?_eq_some_iff.mp hi).1
  let s₁ : State := { s with callbacks := s.callbacks.set i (.add n) }
  let s₂ : State := { s₁ with
    status := wrap (s.status + newDataArrived)
    callbacks := s₁.callbacks.set i (.emit n)
    log := { s.log with adds := s.log.adds + 1 } }
  have h₁ : step targets (w, s) (.callback i) = some (w, s₁) := by
    simp only [step, hi, Option.map_some, callbackStep, hen, if_true, advance, s₁]
  have hi₁ : s₁.callbacks[i]? = some (.add n) := by simp [s₁, hlt]
  have h₂ : step targets (w, s₁) (.callback i) = some (w, s₂) := by
    have hst₁ : s₁.status = noMoreData := hst
    simp only [step, hi₁, Option.map_some, callbackStep, hst₁, if_true, advance]
    simp [s₂, s₁, hst]
  have hi₂ : s₂.callbacks[i]? = some (.emit n) := by simp [s₂, s₁, hlt]
  refine ⟨{ (callbackStep s₂ (.emit n)).1 with
    callbacks := advance s₂.callbacks i (callbackStep s₂ (.emit n)).2 }, ?_, ?_⟩
  · rw [run_cons, h₁, Option.bind_some, run_cons, h₂, Option.bind_some, run_cons]
    simp only [step, hi₂, Option.map_some, Option.bind_some, run_nil]
  · cases n <;> rfl

/-- In every run in which no task leaves the loop of `transmit_` because the
track should not transmit, a state without tasks has the status at zero, and
the next report on the enabled track emits a task. -/
theorem wake_up_of_staysInLoop (targets : List ParticipantId) (w : Writers) (r : Reader)
    (as : List Action) (t : Writers × State)
    (hstay : Along (step targets) StaysInLoop (w, init r) as)
    (hrun : run (step targets) (w, init r) as = some t) (hno : t.2.NoTask) :
    t.2.status = noMoreData ∧
      ∀ i n, t.2.enabled = true → t.2.callbacks[i]? = some (.test n) →
        ∃ s', run (step targets) t [.callback i, .callback i, .callback i] = some (t.1, s') ∧
          s'.queued = 1 := by
  have howed : Owed t.2 :=
    run_invariant_of_along (I := fun p => Owed p.2) (fun _ _ _ hc hI hs => owed_step hc hI hs)
      (.inl rfl) hstay hrun
  have hst : t.2.status = noMoreData := by
    rcases howed with h | h
    · exact h
    · simp [hno.tasks_eq] at h
  refine ⟨hst, fun i n hen hi => ?_⟩
  obtain ⟨s', hr, hq⟩ := dataAvailable_emits targets t.1 hst hen hi
  exact ⟨s', hr, by simpa [hno.queued] using hq⟩

/-! A run on a reliable topic with one writer: the task that the first `enable`
emits is still queued when `disable` runs, and finds the track disabled. -/

def reliableReader : Reader :=
  { participantId := ⟨"a"⟩
    guid := ⟨1, 1⟩
    topic := { topicName := "t", typeName := "T", topicQos := { reliabilityQos := .reliable } } }

def sampleOfOther : CacheChange := { writerGuid := ⟨2, 1⟩, sequenceNumber := 1, length := 4, maxSize := 4 }

/-- `enable` up to the end of the report that the reader makes. -/
def enableAll : List Action := .enable :: List.replicate 6 .control

def disableAll : List Action := .disable :: List.replicate 5 .control

def queuedTaskFindsDisabled : List Action :=
  List.flatten [enableAll, disableAll, .start :: List.replicate 3 (.transmit 0 true)]

/-- After the task has gone, the track is enabled again and a sample arrives:
its report completes, the sample stays in the history, and nothing is queued. -/
def enabledAgain : List Action :=
  List.flatten
    [queuedTaskFindsDisabled, .enable :: List.replicate 5 .control,
      [.arrive sampleOfOther, .callback 0, .callback 0, .callback 0]]

/-- The track that the early exit leaves behind is deaf for ever: enabled, with
data to transmit, all threads idle, and a status that no report finds at zero. -/
theorem disabled_exit_leaves_status :
    ¬ ∀ (targets : List ParticipantId) (w : Writers) (r : Reader) (as : List Action)
      (t : Writers × State), run (step targets) (w, init r) as = some t → t.2.NoTask →
        t.2.status = noMoreData := by
  intro h
  have hdead : ∃ t, run (step [⟨"b"⟩]) (fun _ => false, init reliableReader) enabledAgain = some t ∧
      t.2 = { init reliableReader with
        enabled := true
        status := 6
        reader := { reliableReader with enabled := true, history := [(0, sampleOfOther)] }
        log := { arrivals := 1, completed := [0], adds := 3 } } := ⟨_, rfl, by decide⟩
  obtain ⟨t, hrun, ht⟩ := hdead
  have hst := h _ _ _ _ t hrun (by rw [ht]; exact ⟨rfl, rfl, by simp [State.reports, ControlPc.report, init]⟩)
  rw [ht] at hst
  exact absurd hst (by decide)

def noDataThenSample : List Action :=
  List.flatten
    [enableAll, .start :: List.replicate 6 (.transmit 0 true), [.arrive sampleOfOther, .callback 0]]

/-- A run of the kind the theorem is about: the task finds no data and ends,
and the sample that arrives afterwards wakes the track up. -/
theorem wake_up_after_noData :
    ∃ t, run (step [⟨"b"⟩]) (fun _ => false, init reliableReader) noDataThenSample = some t ∧
      t.2.status = noMoreData ∧
      ∃ s', run (step [⟨"b"⟩]) t [.callback 0, .callback 0, .callback 0] = some (t.1, s') ∧
        s'.queued = 1 := by
  have hrun : ∃ t, run (step [⟨"b"⟩]) (fun _ => false, init reliableReader) noDataThenSample = some t ∧
      t.2 = { init reliableReader with
        enabled := true
        reader := { reliableReader with enabled := true, history := [(0, sampleOfOther)] }
        callbacks := [.test (some 0)]
        log := { arrivals := 1 } } := ⟨_, rfl, by decide⟩
  obtain ⟨t, hrun, ht⟩ := hrun
  have hwake := wake_up_of_staysInLoop [⟨"b"⟩] (fun _ => false) reliableReader noDataThenSample t
    (by decide) hrun (by rw [ht]; exact ⟨rfl, rfl, by decide⟩)
  exact ⟨t, hrun, hwake.1, hwake.2 0 (some 0) (by rw [ht]) (by rw [ht]; rfl)⟩

end DDSRouter.Track
