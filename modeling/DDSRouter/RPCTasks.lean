import DDSRouter.RPCRouting

/-!
# Tasks of the readers of a service

Every reader of an `RPCBridge` has one slot in the thread pool and one flag in
`tasks_map_`. A report emits the slot only when it finds the flag down, and
takes it up with the same mutex; the task puts it down when it ends. The flag
thus counts the tasks of the reader, which are never more than one.

A reader of a reliable topic keeps what arrives while it is disabled, and
reports once after it is enabled. A task that was queued before `disable` may run
before, during and after the next `enable`: it ends under the mutex of the
reader, either on a disabled bridge, whose readers report when they come back,
or on an empty history, where the next sample reports.
-/
namespace DDSRouter.RPC

open Runs Threads

/-- Everything that a step can do. -/
inductive Move (db : Participants) (s : State) : State → Prop where
  | bridge (b : RPCBridge) (n : Nat) (he : b.enabled = s.bridge.enabled) :
      Move db s { s with bridge := b, disableCalls := n }
  | arrive (key : ReaderKey) (c : CacheChange) : Move db s (arrive s key c)
  | enable (b : RPCBridge) (hc : s.control = .idle) (hoff : s.bridge.enabled = false) (hon : b.enabled = true) :
      Move db s { s with bridge := b, control := .enReaders db.replyThenRequest }
  | enReader (key : ReaderKey) (rest : List ReaderKey) (hc : s.control = .enReaders (key :: rest)) :
      Move db s { s.setReader key (s.reader key).enable.1 with
        control := if (s.reader key).enable.2 then .enReport key rest else .enReaders rest }
  | enReport (key : ReaderKey) (rest : List ReaderKey) (hc : s.control = .enReport key rest) :
      Move db s { s.dataAvailable key with control := .enReaders rest }
  | enDone (hc : s.control = .enReaders []) : Move db s { s with control := .idle }
  | disable (n : Nat) (hc : s.control = .idle) (hon : s.bridge.enabled = true) :
      Move db s { s with bridge := s.bridge.disable, control := .disWait, disableCalls := n }
  | disWait (hc : s.control = .disWait) : Move db s { s with control := .disReaders db.requestThenReply }
  | disReader (key : ReaderKey) (rest : List ReaderKey) (hc : s.control = .disReaders (key :: rest)) :
      Move db s { s.setReader key (s.reader key).disable with control := .disReaders rest }
  | disDone (hc : s.control = .disReaders []) : Move db s { s with control := .idle }
  | start (i : Nat) (key : ReaderKey) (hk : s.queued[i]? = some key) :
      Move db s { s with queued := s.queued.eraseIdx i, running := s.running ++ [⟨key, .lock⟩] }
  | transmit (i : Nat) (t : Task) (s₁ : State) (x : Option TransmitPc) (ht : s.running[i]? = some t)
      (hm : TransmitMove db s t.key t.pc s₁ x) :
      Move db s { s₁ with running := advance s.running i (x.map (Task.mk t.key)) }

section Moves

variable {db : Participants} {s s' : State}

theorem move_control (h : controlStep db s s.control = some s') : Move db s s' := by
  cases controlStep_move h with
  | enReader key rest hc => exact .enReader key rest hc
  | enReport key rest hc => exact .enReport key rest hc
  | enDone hc => exact .enDone hc
  | disWait hc => exact .disWait hc
  | disReader key rest hc => exact .disReader key rest hc
  | disDone hc => exact .disDone hc

theorem move_disable (hc : s.control = .idle) (n : Nat) : Move db s { s.disable with disableCalls := n } := by
  unfold State.disable
  split
  · rename_i hon
    exact .disable n hc hon
  · exact .bridge s.bridge n rfl

theorem move_enable (hc : s.control = .idle) (created : ParticipantId → Creation) :
    Move db s { s with
      bridge := s.bridge.enable created db.ids
      control := if !s.bridge.enabled && (s.bridge.enable created db.ids).enabled then
        .enReaders db.replyThenRequest else .idle } := by
  split
  · rename_i h
    simp only [Bool.and_eq_true, Bool.not_eq_true'] at h
    exact .enable _ hc h.1 h.2
  · rename_i h
    have he : (s.bridge.enable created db.ids).enabled = s.bridge.enabled := by
      cases hb : s.bridge.enabled with
      | true => simp [RPCBridge.enable, hb]
      | false => simpa [hb] using h
    rw [← hc]
    exact .bridge _ s.disableCalls he

theorem step_move {a : Action} (h : step db s a = some s') : Move db s s' := by
  cases a with
  | arrive key c =>
    simp only [step] at h
    split at h
    · cases h
      exact .arrive key c
    · cases h
  | discovered id g =>
    simp only [step] at h
    split at h
    · cases h
      exact .bridge _ _ (RPCBridge.discoveredService_enabled _ _ _)
    · cases h
  | removed id g =>
    simp only [step] at h
    split at h
    · cases h
      exact .bridge _ _ rfl
    · cases h
  | enable created =>
    simp only [step] at h
    split at h
    · rename_i hc
      cases h
      exact move_enable hc created
    · cases h
  | disable =>
    simp only [step] at h
    split at h
    · rename_i hc
      cases h
      exact move_disable hc s.disable.disableCalls
    · cases h
  | disableCall =>
    simp only [step] at h
    split at h
    · rename_i hc
      cases h
      exact move_disable hc.1 _
    · cases h
  | control => exact move_control h
  | start i =>
    simp only [step, Option.map_eq_some_iff] at h
    obtain ⟨key, hk, rfl⟩ := h
    exact .start i key hk
  | transmit i o =>
    obtain ⟨t, s₁, x, ht, hm, rfl⟩ := step_transmit_inv h
    exact .transmit i t s₁ x ht hm

end Moves

/-- The tasks of a reader, queued or running. -/
def State.tasksOf (s : State) (key : ReaderKey) : Nat :=
  s.queued.count key + s.running.countP fun t => t.key = key

/-- The flags count the tasks. -/
def Counted (s : State) : Prop := ∀ key, s.tasksOf key = (s.slots key).emitted.toNat

/-- Where `enable` and `disable` stand, and which readers are enabled there. -/
structure Phase (db : Participants) (s : State) : Prop where
  ids : ∀ key, (s.reader key).enabled = true → key.2 ∈ db.ids
  control : match s.control with
    | .idle => s.bridge.enabled = true ∨ ∀ key, (s.reader key).enabled = false
    | .enReaders rest => s.bridge.enabled = true ∧ ∀ key ∈ rest, key.2 ∈ db.ids
    | .enReport _ rest => s.bridge.enabled = true ∧ ∀ key ∈ rest, key.2 ∈ db.ids
    | .disWait => s.bridge.enabled = false
    | .disReaders rest => s.bridge.enabled = false ∧ ∀ key, (s.reader key).enabled = true → key ∈ rest

/-- A reader of a reliable topic that is enabled and has something to read has
its flag up, or is about to report. -/
def Woken (s : State) : Prop :=
  ∀ key, s.bridge.enabled = true → (s.reader key).enabled = true →
    (s.reader key).topic.topicQos.isReliable = true → (s.reader key).history ≠ [] →
      (s.slots key).emitted = true ∨ ∃ rest, s.control = .enReport key rest

section Flags

variable {db : Participants} {s s' : State}

@[simp] theorem emitted_setReader (s : State) (key k : ReaderKey) (r : Reader) :
    ((s.setReader key r).slots k).emitted = (s.slots k).emitted := by
  simp only [State.setReader, Function.update_apply]
  split
  · rename_i hk
    rw [hk]
  · rfl

theorem emitted_setEmitted (s : State) (key k : ReaderKey) (b : Bool) :
    ((s.setEmitted key b).slots k).emitted = if k = key then b else (s.slots k).emitted := by
  simp only [State.setEmitted, Function.update_apply]
  split <;> rfl

/-- A report touches the flag and the queue only. -/
theorem dataAvailable_frame (s : State) (key : ReaderKey) :
    (s.dataAvailable key).bridge = s.bridge ∧ (s.dataAvailable key).control = s.control ∧
      (s.dataAvailable key).running = s.running ∧ ∀ k, (s.dataAvailable key).reader k = s.reader k := by
  unfold State.dataAvailable
  split
  · exact ⟨rfl, rfl, rfl, fun k => reader_setEmitted s key k true⟩
  · exact ⟨rfl, rfl, rfl, fun _ => rfl⟩

theorem emitted_dataAvailable (s : State) (key k : ReaderKey) :
    ((s.dataAvailable key).slots k).emitted =
      ((s.slots k).emitted || (decide (k = key) && s.bridge.enabled)) := by
  unfold State.dataAvailable
  split
  · rename_i h
    simp only [Bool.and_eq_true, Bool.not_eq_true'] at h
    simp only [emitted_setEmitted]
    by_cases hk : k = key
    · simp [hk, h.1]
    · simp [hk]
  · rename_i h
    simp only [Bool.and_eq_true, Bool.not_eq_true', not_and, Bool.not_eq_false] at h
    by_cases hk : k = key
    · subst hk
      cases he : s.bridge.enabled with
      | true => simp [h he]
      | false => simp
    · simp [hk]

/-- Only a report that finds the flag down queues a task. -/
theorem counted_dataAvailable (h : Counted s) (key : ReaderKey) : Counted (s.dataAvailable key) := by
  unfold State.dataAvailable
  split
  · rename_i hgo
    simp only [Bool.and_eq_true, Bool.not_eq_true'] at hgo
    intro k
    have hk := h k
    simp only [State.tasksOf, emitted_setEmitted, List.count_append, List.count_singleton] at hk ⊢
    by_cases he : key = k
    · subst he
      simp only [hgo.2, Bool.toNat_false] at hk
      have hr : (s.setEmitted key true).running = s.running := rfl
      simp only [hr, beq_self_eq_true, if_true, Bool.toNat_true]
      omega
    · have hr : (s.setEmitted key true).running = s.running := rfl
      simp only [hr, beq_iff_eq, if_neg he, if_neg (Ne.symm he)]
      omega
  · exact h

/-- A step that leaves flags and tasks alone. -/
theorem counted_congr (h : Counted s) (hf : ∀ key, (s'.slots key).emitted = (s.slots key).emitted)
    (hq : s'.queued = s.queued) (hr : s'.running = s.running) : Counted s' := by
  intro key
  rw [hf key, ← h key, State.tasksOf, State.tasksOf, hq, hr]

theorem counted_arrive (h : Counted s) (key : ReaderKey) (c : CacheChange) : Counted (arrive s key c) := by
  have hset : Counted
      { s.setReader key (((s.reader key).received s.arrivals c).onNewCacheChangeAdded s.arrivals c).1 with
        arrivals := s.arrivals + 1 } :=
    counted_congr h (fun k => emitted_setReader s key k _) rfl rfl
  unfold arrive
  simp only
  split
  · exact counted_dataAvailable hset key
  · exact hset

theorem counted_start (h : Counted s) {i : Nat} {key : ReaderKey} (hk : s.queued[i]? = some key) :
    Counted { s with queued := s.queued.eraseIdx i, running := s.running ++ [⟨key, .lock⟩] } := by
  intro k
  have hc := countP_advance (fun x => x == k) hk none
  have hold := h k
  simp only [State.tasksOf, List.count, advance, Option.elim_none, List.countP_append,
    List.countP_singleton, decide_eq_true_eq] at hc hold ⊢
  by_cases he : key = k
  · simp only [he, beq_self_eq_true, Bool.toNat_true, if_true] at hc ⊢
    omega
  · simp only [beq_eq_false_iff_ne.mpr he, Bool.toNat_false, if_neg he] at hc ⊢
    omega

/-- A task in its loop does not touch the flags, and stays a task of its reader. -/
theorem transmitMove_flags {key : ReaderKey} {pc : TransmitPc} {x : Option TransmitPc}
    (hm : TransmitMove db s key pc s' x) :
    s'.queued = s.queued ∧ s'.bridge.enabled = s.bridge.enabled ∧ s'.control = s.control ∧
      (x = none ∧ (s.bridge.enabled = false ∨ (s.reader key).history = []) ∧ s' = s.setEmitted key false ∨
        x ≠ none ∧ (∀ k, (s'.slots k).emitted = (s.slots k).emitted) ∧
          (∀ k, k ≠ key → s'.reader k = s.reader k) ∧
          ∃ history, s'.reader key = { s.reader key with history := history }) := by
  have hset : ∀ history k, k ≠ key →
      (s.setReader key { s.reader key with history := history }).reader k = s.reader k := by
    intro history k hk
    rw [reader_setReader, if_neg hk]
  have hself : ∀ history, (s.setReader key { s.reader key with history := history }).reader key =
      { s.reader key with history := history } := by
    intro history
    rw [reader_setReader, if_pos rfl]
  cases hm with
  | leave h => exact ⟨rfl, rfl, rfl, .inl ⟨rfl, h, rfl⟩⟩
  | notTaken history =>
    exact ⟨rfl, rfl, rfl, .inr ⟨by simp, fun k => emitted_setReader s key k _, hset history, _, hself history⟩⟩
  | request n c history pc ht hpc =>
    exact ⟨rfl, rfl, rfl, .inr ⟨by simp, fun k => emitted_setReader s key k _, hset history, _, hself history⟩⟩
  | response c history pc ht hpc =>
    exact ⟨rfl, rfl, rfl, .inr ⟨by simp, fun k => emitted_setReader s key k _, hset history, _, hself history⟩⟩
  | send n data identity id rest sent =>
    refine ⟨rfl, ?_, rfl, .inr ⟨by simp, fun _ => rfl, fun _ _ => rfl, _, rfl⟩⟩
    cases sent with
    | none => rfl
    | some k => exact RPCBridge.mapRegistry_enabled _ _ _
  | erase idx =>
    exact ⟨rfl, RPCBridge.mapRegistry_enabled _ _ _, rfl, .inr ⟨by simp, fun _ => rfl, fun _ _ => rfl, _, rfl⟩⟩
  | lock | stay | sentAll | skip | choose | known | unknown | reply | release =>
    exact ⟨rfl, rfl, rfl, .inr ⟨by simp, fun _ => rfl, fun _ _ => rfl, _, rfl⟩⟩

/-- The flag of a task is up as long as the task runs. -/
theorem emitted_of_running (h : Counted s) {i : Nat} {t : Task} (ht : s.running[i]? = some t) :
    (s.slots t.key).emitted = true := by
  have hpos : 0 < s.running.countP fun t' => t'.key = t.key := countP_pos_of_at ht (by simp)
  have hk := h t.key
  simp only [State.tasksOf] at hk
  cases he : (s.slots t.key).emitted with
  | true => rfl
  | false =>
    rw [he, Bool.toNat_false] at hk
    omega

theorem counted_transmit (h : Counted s) {i : Nat} {t : Task} {s₁ : State} {x : Option TransmitPc}
    (ht : s.running[i]? = some t) (hm : TransmitMove db s t.key t.pc s₁ x) :
    Counted { s₁ with running := advance s.running i (x.map (Task.mk t.key)) } := by
  obtain ⟨hq, -, -, hx⟩ := transmitMove_flags hm
  intro k
  have hc := countP_advance (fun t' : Task => decide (t'.key = k)) ht (x.map (Task.mk t.key))
  have hk := h k
  simp only [State.tasksOf] at hk ⊢
  rcases hx with ⟨rfl, -, rfl⟩ | ⟨hx, hf, -⟩
  · -- the task ends: one less for its reader, whose flag goes down
    simp only [Option.map_none, Option.elim_none, emitted_setEmitted] at hc ⊢
    have he := emitted_of_running h ht
    by_cases hkey : t.key = k
    · simp only [hkey, decide_true, Bool.toNat_true] at hc he
      simp only [hkey, if_true, he, Bool.toNat_true, Bool.toNat_false] at hk ⊢
      rw [show (s.setEmitted k false).queued = s.queued from rfl]
      omega
    · simp only [hkey, decide_false, Bool.toNat_false] at hc
      simp only [if_neg (Ne.symm hkey)]
      rw [show (s.setEmitted t.key false).queued = s.queued from rfl]
      omega
  · obtain ⟨pc, rfl⟩ := Option.ne_none_iff_exists'.mp hx
    simp only [Option.map_some, Option.elim_some] at hc
    rw [hf k, hq]
    simp only [Option.map_some]
    omega

end Flags

section Steps

variable {db : Participants} {s s' : State}

/-- A step that leaves `enable`, `disable` and what they switch alone. -/
theorem phase_congr (h : Phase db s) (hc : s'.control = s.control)
    (hb : s'.bridge.enabled = s.bridge.enabled)
    (hr : ∀ key, (s'.reader key).enabled = (s.reader key).enabled) : Phase db s' := by
  refine ⟨fun key hk => h.ids key (by rw [← hr key, hk]), ?_⟩
  have hcontrol := h.control
  simp only [hc, hb, hr]
  exact hcontrol

theorem enabled_arrive (s : State) (key k : ReaderKey) (c : CacheChange) :
    ((arrive s key c).reader k).enabled = (s.reader k).enabled := by
  have hsame : ((((s.reader key).received s.arrivals c).onNewCacheChangeAdded s.arrivals c).1).enabled =
      (s.reader key).enabled := by
    simp only [Reader.onNewCacheChangeAdded]
    split
    · split
      · rfl
      · split <;> rfl
    · rfl
  have hset : ((s.setReader key (((s.reader key).received s.arrivals c).onNewCacheChangeAdded
      s.arrivals c).1).reader k).enabled = (s.reader k).enabled := by
    rw [reader_setReader]
    split
    · rename_i hk
      rw [hk, hsame]
    · rfl
  unfold arrive
  simp only
  split
  · rw [(dataAvailable_frame _ key).2.2.2 k]
    exact hset
  · exact hset

theorem mem_replyThenRequest {key : ReaderKey} : key ∈ db.replyThenRequest ↔ key.2 ∈ db.ids := by
  obtain ⟨side, id⟩ := key
  cases side <;> simp [Participants.replyThenRequest]

theorem mem_requestThenReply {key : ReaderKey} : key ∈ db.requestThenReply ↔ key.2 ∈ db.ids := by
  obtain ⟨side, id⟩ := key
  cases side <;> simp [Participants.requestThenReply]

theorem enabled_enable (r : Reader) : r.enable.1.enabled = true := by
  unfold Reader.enable
  split
  · rfl
  · rename_i h
    simpa using h

theorem counted_move (h : Counted s) (hm : Move db s s') : Counted s' := by
  cases hm with
  | arrive key c => exact counted_arrive h key c
  | enReader key rest hc => exact counted_congr h (fun k => emitted_setReader s key k _) rfl rfl
  | enReport key rest hc => exact counted_congr (counted_dataAvailable h key) (fun _ => rfl) rfl rfl
  | disReader key rest hc => exact counted_congr h (fun k => emitted_setReader s key k _) rfl rfl
  | start i key hk => exact counted_start h hk
  | transmit i t s₁ x ht hm => exact counted_transmit h ht hm
  | bridge | enable | enDone | disable | disWait | disDone => exact counted_congr h (fun _ => rfl) rfl rfl

theorem phase_move (h : Phase db s) (hm : Move db s s') : Phase db s' := by
  have hctl := h.control
  cases hm with
  | bridge b n he => exact phase_congr h rfl he fun _ => rfl
  | arrive key c =>
    have hframe : (arrive s key c).control = s.control ∧ (arrive s key c).bridge = s.bridge := by
      unfold arrive
      simp only
      split
      · obtain ⟨hb, hc, -⟩ := dataAvailable_frame { s.setReader key
          (((s.reader key).received s.arrivals c).onNewCacheChangeAdded s.arrivals c).1 with
            arrivals := s.arrivals + 1 } key
        exact ⟨hc, hb⟩
      · exact ⟨rfl, rfl⟩
    exact phase_congr h hframe.1 (by rw [hframe.2]) fun k => enabled_arrive s key k c
  | enable b hc hoff hon => exact ⟨h.ids, hon, fun key hk => mem_replyThenRequest.mp hk⟩
  | enReader key rest hc =>
    rw [hc] at hctl
    obtain ⟨hon, hrest⟩ := hctl
    refine ⟨fun k hk => ?_, ?_⟩
    · by_cases he : k = key
      · exact he ▸ hrest key List.mem_cons_self
      · change ((s.setReader key _).reader k).enabled = true at hk
        rw [reader_setReader, if_neg he] at hk
        exact h.ids k hk
    · have hlater : ∀ k ∈ rest, k.2 ∈ db.ids := fun k hk => hrest k (List.mem_cons_of_mem key hk)
      cases (s.reader key).enable.2 with
      | true => exact ⟨hon, hlater⟩
      | false => exact ⟨hon, hlater⟩
  | enReport key rest hc =>
    obtain ⟨hb, -, -, hr⟩ := dataAvailable_frame s key
    rw [hc] at hctl
    refine ⟨fun k hk => h.ids k ?_, ?_, hctl.2⟩
    · rw [← hr k]
      exact hk
    · change (s.dataAvailable key).bridge.enabled = true
      rw [hb]
      exact hctl.1
  | enDone hc =>
    rw [hc] at hctl
    exact ⟨h.ids, .inl hctl.1⟩
  | disable n hc hon => exact ⟨h.ids, rfl⟩
  | disWait hc =>
    rw [hc] at hctl
    exact ⟨h.ids, hctl, fun key hk => mem_requestThenReply.mpr (h.ids key hk)⟩
  | disReader key rest hc =>
    rw [hc] at hctl
    obtain ⟨hoff, hrest⟩ := hctl
    -- the reader is disabled now, whoever is still enabled comes later in the list
    have hen : ∀ k, ((s.setReader key (s.reader key).disable).reader k).enabled = true →
        k ≠ key ∧ (s.reader k).enabled = true := by
      intro k hk
      rw [reader_setReader] at hk
      split at hk
      · cases hk
      · rename_i hne
        exact ⟨hne, hk⟩
    refine ⟨fun k hk => h.ids k (hen k hk).2, hoff, fun k hk => ?_⟩
    exact (List.mem_cons.mp (hrest k (hen k hk).2)).resolve_left (hen k hk).1
  | disDone hc =>
    rw [hc] at hctl
    refine ⟨h.ids, .inr fun key => ?_⟩
    cases he : (s.reader key).enabled with
    | false => exact he
    | true => exact absurd (hctl.2 key he) (by simp)
  | start i key hk => exact phase_congr h rfl rfl fun _ => rfl
  | transmit i t s₁ x ht hm =>
    obtain ⟨-, hb, hc, hx⟩ := transmitMove_flags hm
    refine phase_congr h hc hb fun k => ?_
    rcases hx with ⟨-, -, rfl⟩ | ⟨-, -, hother, history, hself⟩
    · exact congrArg Reader.enabled (reader_setEmitted s t.key k false)
    · by_cases hk : k = t.key
      · subst hk
        change (s₁.reader t.key).enabled = _
        rw [hself]
      · exact congrArg Reader.enabled (hother k hk)

/-- A reader that nothing was added to, with its flag as it was. -/
theorem woken_congr (h : Woken s) (hb : s'.bridge.enabled = s.bridge.enabled) (hr : ∀ key, s'.reader key = s.reader key)
    (hf : ∀ key, (s.slots key).emitted = true → (s'.slots key).emitted = true)
    (hc : ∀ key rest, s.control = .enReport key rest →
      s'.control = .enReport key rest ∨ (s'.slots key).emitted = true) : Woken s' := by
  intro key hon hen hrel hne
  rw [hb] at hon
  rw [hr key] at hen hrel hne
  rcases h key hon hen hrel hne with hup | ⟨rest, hrep⟩
  · exact .inl (hf key hup)
  · rcases hc key rest hrep with hrep | hup
    · exact .inr ⟨rest, hrep⟩
    · exact .inl hup

/-- What the listener leaves of a change: an enabled reader reports it, unless
it comes from the own participant and is removed. -/
theorem received_cases (r : Reader) (n : Nat) (c : CacheChange) (hen : r.enabled = true) :
    ((r.received n c).onNewCacheChangeAdded n c).2 = true ∨
      (((r.received n c).onNewCacheChangeAdded n c).1.history ≠ [] → r.history ≠ []) := by
  have hen' : (r.received n c).enabled = true := hen
  simp only [Reader.onNewCacheChangeAdded, if_pos hen']
  split
  · exact .inl rfl
  · right
    intro hne hnil
    apply hne
    simp [Reader.remove, Reader.received, hnil]

theorem topic_received (r : Reader) (n : Nat) (c : CacheChange) :
    ((r.received n c).onNewCacheChangeAdded n c).1.topic = r.topic ∧
      ((r.received n c).onNewCacheChangeAdded n c).1.enabled = r.enabled := by
  simp only [Reader.onNewCacheChangeAdded]
  split
  · split
    · exact ⟨rfl, rfl⟩
    · split <;> exact ⟨rfl, rfl⟩
  · exact ⟨rfl, rfl⟩

theorem woken_arrive (h : Woken s) (key : ReaderKey) (c : CacheChange) : Woken (arrive s key c) := by
  let r := ((s.reader key).received s.arrivals c).onNewCacheChangeAdded s.arrivals c
  let s₁ : State := { s.setReader key r.1 with arrivals := s.arrivals + 1 }
  have hs₁ : ∀ k, s₁.reader k = if k = key then r.1 else s.reader k := fun k => reader_setReader s key k r.1
  have hf₁ : ∀ k, (s₁.slots k).emitted = (s.slots k).emitted := fun k => emitted_setReader s key k r.1
  obtain ⟨htopic, henabled⟩ := topic_received (s.reader key) s.arrivals c
  -- the change itself is either reported or gone
  have hwoken : ∀ k, s.bridge.enabled = true → (s₁.reader k).enabled = true →
      (s₁.reader k).topic.topicQos.isReliable = true → (s₁.reader k).history ≠ [] →
        (k = key ∧ r.2 = true) ∨ (s.slots k).emitted = true ∨ ∃ rest, s.control = .enReport k rest := by
    intro k hon hen hrel hne
    rw [hs₁ k] at hen hrel hne
    by_cases hk : k = key
    · subst hk
      rw [if_pos rfl] at hen hrel hne
      rw [henabled] at hen
      rw [htopic] at hrel
      rcases received_cases (s.reader k) s.arrivals c hen with hrep | hold
      · exact .inl ⟨rfl, hrep⟩
      · exact .inr (h k hon hen hrel (hold hne))
    · rw [if_neg hk] at hen hrel hne
      exact .inr (h k hon hen hrel hne)
  change Woken (if r.2 then s₁.dataAvailable key else s₁)
  split
  · obtain ⟨hb, hc, -, hr⟩ := dataAvailable_frame s₁ key
    intro k hon hen hrel hne
    rw [hb] at hon
    rw [hr k] at hen hrel hne
    rw [emitted_dataAvailable, hc, hf₁ k]
    rcases hwoken k hon hen hrel hne with ⟨rfl, -⟩ | hup | hrep
    · exact .inl (by simp [hon])
    · exact .inl (by simp [hup])
    · exact .inr hrep
  · rename_i hno
    intro k hon hen hrel hne
    rw [hf₁ k]
    rcases hwoken k hon hen hrel hne with ⟨-, hyes⟩ | hkept
    · exact absurd hyes hno
    · exact hkept

/-- A task that takes is up itself; a task that ends leaves nothing to read, or
a bridge that is disabled. -/
theorem woken_transmit (hcount : Counted s) (h : Woken s) {i : Nat} {t : Task} {s₁ : State}
    {x : Option TransmitPc} (ht : s.running[i]? = some t) (hm : TransmitMove db s t.key t.pc s₁ x) :
    Woken { s₁ with running := advance s.running i (x.map (Task.mk t.key)) } := by
  obtain ⟨-, hb, hc, hx⟩ := transmitMove_flags hm
  intro k hon hen hrel hne
  change s₁.bridge.enabled = true at hon
  change (s₁.reader k).enabled = true at hen
  change (s₁.reader k).topic.topicQos.isReliable = true at hrel
  change (s₁.reader k).history ≠ [] at hne
  change (s₁.slots k).emitted = true ∨ ∃ rest, s₁.control = .enReport k rest
  rw [hb] at hon
  rcases hx with ⟨-, hend, rfl⟩ | ⟨-, hf, hother, -⟩
  · rw [reader_setEmitted] at hen hrel hne
    rw [emitted_setEmitted]
    by_cases hk : k = t.key
    · subst hk
      rcases hend with hoff | hnil
      · exact absurd hon (by simp [hoff])
      · exact absurd hnil hne
    · rw [if_neg hk]
      exact h k hon hen hrel hne
  · rw [hf k, hc]
    by_cases hk : k = t.key
    · subst hk
      exact .inl (emitted_of_running hcount ht)
    · rw [hother k hk] at hen hrel hne
      exact h k hon hen hrel hne

theorem woken_move (hcount : Counted s) (hphase : Phase db s) (h : Woken s) (hm : Move db s s') : Woken s' := by
  have hctl := hphase.control
  cases hm with
  | bridge b n he => exact woken_congr h he (fun _ => rfl) (fun _ hup => hup) fun _ _ hrep => .inl hrep
  | arrive key c => exact woken_arrive h key c
  | enable b hc hoff hon =>
    -- no reader is enabled before the bridge is
    rw [hc] at hctl
    intro key _ hen
    change (s.reader key).enabled = true at hen
    rcases hctl with hon | hall
    · exact absurd hon (by simp [hoff])
    · exact absurd hen (by simp [hall key])
  | enReader key rest hc =>
    intro k hon hen hrel hne
    change ((s.setReader key _).reader k).enabled = true at hen
    change ((s.setReader key _).reader k).topic.topicQos.isReliable = true at hrel
    change ((s.setReader key _).reader k).history ≠ [] at hne
    change ((s.setReader key _).slots k).emitted = true ∨ ∃ rest', _ = ControlPc.enReport k rest'
    rw [reader_setReader] at hen hrel hne
    rw [emitted_setReader]
    have hold : (s.reader k).enabled = true → (s.reader k).topic.topicQos.isReliable = true →
        (s.reader k).history ≠ [] → (s.slots k).emitted = true := by
      intro hen hrel hne
      rcases h k hon hen hrel hne with hup | ⟨rest', hrep⟩
      · exact hup
      · simp [hc] at hrep
    by_cases hk : k = key
    · subst hk
      rw [if_pos rfl] at hrel hne
      cases he : (s.reader k).enabled with
      | true => exact .inl (hold he (by simpa [Reader.enable, he] using hrel) (by simpa [Reader.enable, he] using hne))
      | false =>
        refine .inr ⟨rest, ?_⟩
        have hrel' : (s.reader k).topic.topicQos.isReliable = true := by simpa [Reader.enable, he] using hrel
        simp [Reader.enable, he, hrel']
    · rw [if_neg hk] at hen hrel hne
      exact .inl (hold hen hrel hne)
  | enReport key rest hc =>
    rw [hc] at hctl
    obtain ⟨hb, -, -, hr⟩ := dataAvailable_frame s key
    refine woken_congr h (by rw [← hb]) hr ?_ ?_
    · intro k hup
      change ((s.dataAvailable key).slots k).emitted = true
      rw [emitted_dataAvailable, hup, Bool.true_or]
    · intro k rest' hrep
      rw [hc] at hrep
      cases hrep
      right
      change ((s.dataAvailable key).slots key).emitted = true
      simp [emitted_dataAvailable, hctl.1]
  | disable n hc hon =>
    intro key hon'
    cases hon'
  | disReader key rest hc =>
    rw [hc] at hctl
    intro k hon
    change s.bridge.enabled = true at hon
    exact absurd hon (by simp [hctl.1])
  | enDone hc | disWait hc | disDone hc =>
    exact woken_congr h rfl (fun _ => rfl) (fun _ hup => hup) fun k rest hrep => by simp [hc] at hrep
  | start i key hk => exact woken_congr h rfl (fun _ => rfl) (fun _ hup => hup) fun _ _ hrep => .inl hrep
  | transmit i t s₁ x ht hm => exact woken_transmit hcount h ht hm

end Steps

/-- What holds in every state that a bridge can reach. -/
structure Tasks (db : Participants) (s : State) : Prop where
  counted : Counted s
  phase : Phase db s
  woken : Woken s

theorem tasks_create (db : Participants) (topic : RPCTopic) : Tasks db (create db topic) := by
  refine ⟨fun key => rfl, ⟨fun key hen => ?_, .inr fun key => rfl⟩, fun key hon => ?_⟩
  · cases hen
  · cases hon

theorem tasks_step {db : Participants} {s s' : State} {a : Action} (h : Tasks db s)
    (hs : step db s a = some s') : Tasks db s' := by
  have hm := step_move hs
  exact ⟨counted_move h.counted hm, phase_move h.phase hm, woken_move h.counted h.phase h.woken hm⟩

/-- In every state that a bridge can reach, the flag of a reader says whether it
has a task, of which there is never more than one. Where neither `enable` nor
`disable` is under way, a reader of a reliable topic that is enabled on an enabled
bridge and holds a sample of another participant has a task. -/
theorem flag_iff_task_and_no_lost_wake_up (db : Participants) (topic : RPCTopic) (as : List Action) (s : State)
    (hrun : run (step db) (create db topic) as = some s) (key : ReaderKey) :
    ((s.slots key).emitted = true ↔ s.tasksOf key = 1) ∧
      ((s.slots key).emitted = false ↔ s.tasksOf key = 0) ∧
      (s.control = .idle → s.bridge.enabled = true → (s.reader key).enabled = true →
        (s.reader key).topic.topicQos.isReliable = true →
        (∃ n c, (n, c) ∈ (s.reader key).history ∧ (s.reader key).comeFromThisParticipant c = false) →
          key ∈ s.queued ∨ ∃ t ∈ s.running, t.key = key) := by
  have h : Tasks db s :=
    run_invariant (fun _ _ _ hI hs => tasks_step hI hs) (tasks_create db topic) hrun
  have hcount := h.counted key
  refine ⟨?_, ?_, fun hidle hon hen hrel ⟨n, c, hmem, _⟩ => ?_⟩
  · cases he : (s.slots key).emitted with
    | true => simp [hcount, he]
    | false => simp [hcount, he]
  · cases he : (s.slots key).emitted with
    | true => simp [hcount, he]
    | false => simp [hcount, he]
  · rcases h.woken key hon hen hrel (List.ne_nil_of_mem hmem) with hup | ⟨rest, hrep⟩
    · rw [hup, Bool.toNat_true, State.tasksOf] at hcount
      by_cases hq : key ∈ s.queued
      · exact .inl hq
      · rw [List.count_eq_zero_of_not_mem hq, Nat.zero_add] at hcount
        obtain ⟨t, ht, hk⟩ := List.countP_pos_iff.mp (hcount ▸ Nat.one_pos)
        exact .inr ⟨t, ht, by simpa using hk⟩
    · simp [hidle] at hrep

/-- A task queued before `disable` ends on the disabled bridge; the sample that
came meanwhile is reported by the next `enable`. -/
def sampleWhileDisabled : List Action :=
  List.flatten
    [enabledFor ⟨"b"⟩, .disable :: List.replicate 6 .control,
      [.start 2, .transmit 0 {}, .transmit 0 {}, .arrive (.request, ⟨"a"⟩) (request 1)],
      (.enable fun _ => .ok) :: List.replicate 9 .control]

theorem woken_after_disable :
    ∃ s, run (step twoParticipants) (create twoParticipants addTwoIntsService) sampleWhileDisabled = some s ∧
      (s.reader (.request, ⟨"a"⟩)).history = [(0, request 1)] ∧
      ((s.slots (.request, ⟨"a"⟩)).emitted = true ↔ s.tasksOf (.request, ⟨"a"⟩) = 1) ∧
      ((.request, ⟨"a"⟩) ∈ s.queued ∨ ∃ t ∈ s.running, t.key = (.request, ⟨"a"⟩)) := by
  have hrun : ∃ s, run (step twoParticipants) (create twoParticipants addTwoIntsService) sampleWhileDisabled = some s ∧
      s.control = .idle ∧ s.bridge.enabled = true ∧ (s.reader (.request, ⟨"a"⟩)).enabled = true ∧
      (s.reader (.request, ⟨"a"⟩)).topic.topicQos.isReliable = true ∧
      (s.reader (.request, ⟨"a"⟩)).history = [(0, request 1)] ∧
      (s.reader (.request, ⟨"a"⟩)).comeFromThisParticipant (request 1) = false :=
    ⟨_, rfl, by decide, by decide, by decide, by decide, by decide, by decide⟩
  obtain ⟨s, hrun, hidle, hon, hen, hrel, hhist, hother⟩ := hrun
  have h := flag_iff_task_and_no_lost_wake_up twoParticipants addTwoIntsService sampleWhileDisabled s hrun
    (.request, ⟨"a"⟩)
  exact ⟨s, hrun, hhist, h.1, h.2.2 hidle hon hen hrel ⟨0, request 1, by simp [hhist], hother⟩⟩

end DDSRouter.RPC
