import DDSRouter.DDSBridge

/-!
# Writers of a bridge

Inside one track the writers are safe: they are enabled before the reader, and
`disable` lets a transmission end before it switches them off. The part of the
invariant that speaks of the flags of the writers is what a step of another
track can break. It does so only when it switches off a writer that a track
which is still enabled has too.
-/
namespace DDSRouter.Track

open Threads

/-- `enable` has enabled all writers, and `disable` has not begun to disable
them. -/
def State.writersOn (s : State) : Bool :=
  match s.control with
  | .idle => s.enabled
  | .enCallback _ | .disSet | .disWait | .disReader => true
  | .enSet | .enWriters _ | .disWriters _ => false

/-- What `enabled_` is while a thread is inside `enable` or `disable`. -/
def ControlPc.flag : ControlPc → Option Bool
  | .idle => none
  | .enWriters _ | .enCallback _ | .disSet => some true
  | .enSet | .disWait | .disReader | .disWriters _ => some false

/-- The task holds `on_transmission_mutex_`. -/
def TransmitPc.holding : TransmitPc → Bool
  | .lock => false
  | _ => true

/-- The task has found the track enabled in this round of its loop. -/
def TransmitPc.busy : TransmitPc → Bool
  | .lock | .loop | .unlock => false
  | .store | .take | .sub | .write _ _ _ => true

theorem TransmitPc.holding_of_busy {pc : TransmitPc} (h : pc.busy = true) : pc.holding = true := by
  cases pc with
  | lock => simp [busy] at h
  | loop | store | take | sub | write | unlock => rfl

structure Guarded (targets : List ParticipantId) (w : Writers) (s : State) : Prop where
  flag : ∀ b, s.control.flag = some b → s.enabled = b
  mutex : s.running.countP TransmitPc.holding = s.onTransmission.toNat
  busy : ∀ pc ∈ s.running, pc.busy = true → s.enabled = true ∨ s.control = .disWait
  reader : s.reader.enabled = true → s.writersOn = true
  sample : ∀ n data rest, .write n data rest ∈ s.running → s.writersOn = true ∧ ∀ p ∈ rest, p ∈ targets
  writers : s.writersOn = true → ∀ p ∈ targets, w p = true
  raised : ∀ rest, s.control = .enWriters rest → ∀ p ∈ targets, p ∈ rest ∨ w p = true
  lowered : ∀ rest, s.control = .disWriters rest → ∀ p ∈ rest, p ∈ targets
  writes : ∀ c ∈ s.log.writes, c.enabled = true

section Preservation

variable {targets : List ParticipantId} {w w' : Writers} {s s' : State}

theorem guarded_init (targets : List ParticipantId) (w : Writers) (r : Reader) :
    Guarded targets w (init r) := by
  refine ⟨?_, rfl, ?_, ?_, ?_, ?_, ?_, ?_, ?_⟩ <;> simp [init, ControlPc.flag, State.writersOn]

/-- A step that leaves alone what the invariant speaks of. -/
theorem guarded_congr (h : Guarded targets w s) (he : s'.enabled = s.enabled)
    (hc : s'.control = s.control) (hm : s'.onTransmission = s.onTransmission)
    (hr : s'.reader.enabled = s.reader.enabled) (hrun : s'.running = s.running)
    (hw : s'.log.writes = s.log.writes) : Guarded targets w s' := by
  have hon : s'.writersOn = s.writersOn := by simp only [State.writersOn, hc, he]
  constructor
  · rw [hc, he]
    exact h.flag
  · rw [hrun, hm]
    exact h.mutex
  · rw [hrun, hc, he]
    exact h.busy
  · rw [hr, hon]
    exact h.reader
  · rw [hrun, hon]
    exact h.sample
  · rw [hon]
    exact h.writers
  · rw [hc]
    exact h.raised
  · rw [hc]
    exact h.lowered
  · rw [hw]
    exact h.writes

/-- A report does not enable or disable anything and writes nothing. -/
theorem callbackStep_quiet (s : State) (pc : CallbackPc) :
    (callbackStep s pc).1.enabled = s.enabled ∧ (callbackStep s pc).1.running = s.running ∧
      (callbackStep s pc).1.onTransmission = s.onTransmission ∧
      (callbackStep s pc).1.reader.enabled = s.reader.enabled ∧
      (callbackStep s pc).1.log.writes = s.log.writes := by
  obtain ⟨st, r, q, l, hf⟩ := callbackStep_frame s pc
  obtain ⟨done, k, hl⟩ := callbackStep_log s pc
  have hr : (callbackStep s pc).1.reader.enabled = s.reader.enabled := by
    rcases callbackStep_history s pc with h | ⟨m, c, -, -, h, -⟩
    · rw [h]
    · rw [h]
      rfl
  exact ⟨by rw [hf], by rw [hf], by rw [hf], hr, by rw [hl]⟩

theorem guarded_callback {i : Nat} (h : Guarded targets w s)
    (hs : step targets (w, s) (.callback i) = some (w', s')) : Guarded targets w' s' := by
  obtain ⟨pc, -, rfl, rfl⟩ := step_callback_inv hs
  obtain ⟨he, hrun, hm, hr, hw⟩ := callbackStep_quiet s pc
  obtain ⟨st, r, q, l, hf⟩ := callbackStep_frame s pc
  exact guarded_congr h he (by simp only [hf]) hm hr hrun hw

/-- The control thread moves and the writers stay on or stay off. -/
theorem guarded_phase {e : Bool} {c : ControlPc} (h : Guarded targets w s)
    (hflag : ∀ b, c.flag = some b → e = b)
    (hbusy : s.enabled = true ∨ s.control = .disWait → e = true ∨ c = .disWait)
    (hon : State.writersOn { s with enabled := e, control := c } = s.writersOn)
    (hraised : ∀ rest, c = .enWriters rest → ∀ p ∈ targets, p ∈ rest ∨ w p = true)
    (hlowered : ∀ rest, c = .disWriters rest → ∀ p ∈ rest, p ∈ targets) :
    Guarded targets w { s with enabled := e, control := c } := by
  constructor
  · exact hflag
  · exact h.mutex
  · exact fun pc hpc hb => hbusy (h.busy pc hpc hb)
  · rw [hon]
    exact h.reader
  · rw [hon]
    exact h.sample
  · rw [hon]
    exact h.writers
  · exact hraised
  · exact hlowered
  · exact h.writes

theorem Guarded.not_busy (h : Guarded targets w s) (he : s.enabled = false) (hc : s.control ≠ .disWait)
    {pc : TransmitPc} (hpc : pc ∈ s.running) : pc.busy = false := by
  by_contra hb
  rcases h.busy pc hpc (by simpa using hb) with h' | h'
  · simp [he] at h'
  · exact hc h'

/-- With the mutex free no task is past the test of its loop. -/
theorem Guarded.not_busy_of_free (h : Guarded targets w s) (hm : s.onTransmission = false)
    {pc : TransmitPc} (hpc : pc ∈ s.running) : pc.busy = false := by
  by_contra hb
  have h0 : s.running.countP TransmitPc.holding = 0 := by simpa [hm] using h.mutex
  exact List.countP_eq_zero.mp h0 pc hpc (TransmitPc.holding_of_busy (by simpa using hb))

/-- Other flags of writers, as far as the track does not need them. -/
theorem guarded_writers (h : Guarded targets w s) (hon : s.writersOn = true → ∀ p ∈ targets, w' p = true)
    (hraised : ∀ rest, s.control = .enWriters rest → ∀ p ∈ targets, p ∈ rest ∨ w' p = true) :
    Guarded targets w' s :=
  ⟨h.flag, h.mutex, h.busy, h.reader, h.sample, hon, hraised, h.lowered, h.writes⟩

theorem put_true_of (w : Writers) (p : ParticipantId) {q : ParticipantId} (h : w q = true) :
    w.put p true q = true := by
  simp [Writers.put, h]

/-- A writer that is enabled more helps every track. -/
theorem guarded_put_true (h : Guarded targets w s) (p : ParticipantId) :
    Guarded targets (w.put p true) s := by
  apply guarded_writers h
  · intro hon q hq
    exact put_true_of w p (h.writers hon q hq)
  · intro rest hc q hq
    rcases h.raised rest hc q hq with h' | h'
    · exact .inl h'
    · exact .inr (put_true_of w p h')

/-- A writer may be disabled under a track that does not have it or is idle and
disabled. -/
theorem guarded_put_false (h : Guarded targets w s) (p : ParticipantId)
    (hfree : p ∈ targets → s.enabled = false ∧ s.control = .idle) :
    Guarded targets (w.put p false) s := by
  apply guarded_writers h
  · intro hon q hq
    by_cases hqp : q = p
    · subst hqp
      obtain ⟨he, hc⟩ := hfree hq
      simp [State.writersOn, hc, he] at hon
    · rw [Writers.put_other w false hqp]
      exact h.writers hon q hq
  · intro rest hc q hq
    by_cases hqp : q = p
    · subst hqp
      simp [(hfree hq).2] at hc
    · rw [Writers.put_other w false hqp]
      exact h.raised rest hc q hq

/-- The reader is enabled when all writers are, whichever way `enable` goes on. -/
theorem guarded_enReader (h : Guarded targets w s) (hc : s.control = .enWriters []) {c : ControlPc}
    (hcc : c = .idle ∨ c = .enCallback (.test none)) :
    Guarded targets w { s with reader := s.reader.enable.1, control := c } := by
  have he : s.enabled = true := h.flag true (by rw [hc]; rfl)
  have hall : ∀ p ∈ targets, w p = true := by
    intro p hp
    simpa using h.raised [] hc p hp
  have hon : State.writersOn { s with reader := s.reader.enable.1, control := c } = true := by
    rcases hcc with rfl | rfl
    · exact he
    · rfl
  constructor
  · rcases hcc with rfl | rfl <;> simp [ControlPc.flag, he]
  · exact h.mutex
  · exact fun _ _ _ => .inl he
  · exact fun _ => hon
  · exact fun n data rest hmem => ⟨hon, (h.sample n data rest hmem).2⟩
  · exact fun _ => hall
  · rcases hcc with rfl | rfl <;> simp
  · rcases hcc with rfl | rfl <;> simp
  · exact h.writes

/-- A step of the callback that `enable` makes itself. -/
theorem guarded_enCallback (h : Guarded targets w s) {pc : CallbackPc} (hc : s.control = .enCallback pc) {c : ControlPc}
    (hcc : c = .idle ∨ ∃ pc', c = .enCallback pc') : Guarded targets w { (callbackStep s pc).1 with control := c } := by
  have he : s.enabled = true := h.flag true (by rw [hc]; rfl)
  obtain ⟨henb, hrun, hm, hr, hw⟩ := callbackStep_quiet s pc
  obtain ⟨st, r, q, l, hf⟩ := callbackStep_frame s pc
  have hmid : Guarded targets w (callbackStep s pc).1 :=
    guarded_congr h henb (by simp only [hf]) hm hr hrun hw
  have hc' : (callbackStep s pc).1.control = .enCallback pc := by simp only [hf, hc]
  refine guarded_phase hmid ?_ (fun _ => .inl (henb.trans he)) ?_ ?_ ?_
  · rcases hcc with rfl | ⟨pc', rfl⟩ <;> simp [ControlPc.flag, henb, he]
  · rcases hcc with rfl | ⟨pc', rfl⟩ <;> simp [State.writersOn, hc', henb, he]
  · rcases hcc with rfl | ⟨pc', rfl⟩ <;> simp
  · rcases hcc with rfl | ⟨pc', rfl⟩ <;> simp

theorem guarded_control (h : Guarded targets w s)
    (hs : step targets (w, s) .control = some (w', s')) : Guarded targets w' s' := by
  cases step_control_inv hs with
  | enSet hc =>
    refine guarded_phase h (by simp [ControlPc.flag]) (fun _ => .inl rfl) ?_ ?_ (by simp)
    · simp [State.writersOn, hc]
    · intro rest hrest p hp
      cases hrest
      exact .inl hp
  | enWriter p rest hc =>
    have he : s.enabled = true := h.flag true (by rw [hc]; rfl)
    have hoff : s.writersOn = false := by simp [State.writersOn, hc]
    have hraised := h.raised (p :: rest) hc
    refine guarded_phase (guarded_put_true h p) (by simp [ControlPc.flag, he]) (fun _ => .inl he) ?_ ?_
      (by simp)
    · simp [State.writersOn, hc]
    · intro rest' hrest q hq
      cases hrest
      rcases hraised q hq with h' | h'
      · rcases List.mem_cons.mp h' with rfl | h'
        · exact .inr (by simp)
        · exact .inl h'
      · exact .inr (put_true_of w p h')
  | enReader hc =>
    split
    · exact guarded_enReader h hc (.inr rfl)
    · exact guarded_enReader h hc (.inl rfl)
  | enCallback pc hc =>
    cases (callbackStep s pc).2 with
    | none => exact guarded_enCallback h hc (.inl rfl)
    | some pc' => exact guarded_enCallback h hc (.inr ⟨pc', rfl⟩)
  | disSet hc =>
    refine guarded_phase h (by simp [ControlPc.flag]) (fun _ => .inr rfl) ?_ (by simp) (by simp)
    simp [State.writersOn, hc]
  | disWait hc hm =>
    have he : s.enabled = false := h.flag false (by rw [hc]; rfl)
    constructor
    · simp [ControlPc.flag, he]
    · exact h.mutex
    · intro pc hpc hb
      simp [h.not_busy_of_free hm hpc] at hb
    · exact fun _ => rfl
    · exact fun n data rest hmem => ⟨rfl, (h.sample n data rest hmem).2⟩
    · exact fun _ => h.writers (by simp [State.writersOn, hc])
    · simp
    · simp
    · exact h.writes
  | disReader hc =>
    have he : s.enabled = false := h.flag false (by rw [hc]; rfl)
    have hfree : ∀ pc ∈ s.running, pc.busy = false := fun pc => h.not_busy he (by simp [hc])
    constructor
    · simp [ControlPc.flag, he]
    · exact h.mutex
    · intro pc hpc hb
      simp [hfree pc hpc] at hb
    · simp [Reader.disable]
    · intro n data rest hmem
      exact absurd (hfree _ hmem) (by simp [TransmitPc.busy])
    · simp [State.writersOn]
    · simp
    · intro rest hrest p hp
      cases hrest
      exact hp
    · exact h.writes
  | disWriter p rest hc =>
    have he : s.enabled = false := h.flag false (by rw [hc]; rfl)
    have hoff : s.writersOn = false := by simp [State.writersOn, hc]
    have hput : Guarded targets (w.put p false) s := by
      apply guarded_writers h
      · simp [hoff]
      · simp [hc]
    refine guarded_phase hput (by simp [ControlPc.flag, he]) ?_ ?_ (by simp) ?_
    · simp [hc, he]
    · simp [State.writersOn, hc]
    · intro rest' hrest q hq
      cases hrest
      exact h.lowered (p :: rest) hc q (by simp [hq])
  | disDone hc =>
    have he : s.enabled = false := h.flag false (by rw [hc]; rfl)
    refine guarded_phase h (by simp [ControlPc.flag]) ?_ ?_ (by simp) (by simp)
    · simp [hc, he]
    · simp [State.writersOn, hc, he]

/-- A task moves from one point to the next. -/
theorem guarded_task {t : State} {i : Nat} {x : Option TransmitPc} (h : Guarded targets w s)
    (hfr : t.enabled = s.enabled ∧ t.control = s.control ∧ t.reader.enabled = s.reader.enabled)
    (hm : (advance s.running i x).countP TransmitPc.holding = t.onTransmission.toNat)
    (hbusy : ∀ pc, x = some pc → pc.busy = true → s.enabled = true ∨ s.control = .disWait)
    (hsample : ∀ n data rest, x = some (.write n data rest) →
      s.writersOn = true ∧ ∀ p ∈ rest, p ∈ targets)
    (hw : ∀ c ∈ t.log.writes, c.enabled = true) :
    Guarded targets w { t with running := advance s.running i x } := by
  obtain ⟨he, hc, hr⟩ := hfr
  have hon : State.writersOn { t with running := advance s.running i x } = s.writersOn := by
    simp only [State.writersOn, he, hc]
  constructor
  · simp only [he, hc]
    exact h.flag
  · exact hm
  · simp only [he, hc]
    intro pc hpc hb
    rcases mem_advance hpc with hmem | hx
    · exact h.busy pc hmem hb
    · exact hbusy pc hx hb
  · rw [hon, hr]
    exact h.reader
  · rw [hon]
    intro n data rest hmem
    rcases mem_advance hmem with hmem | hx
    · exact h.sample n data rest hmem
    · exact hsample n data rest hx
  · rw [hon]
    exact h.writers
  · simp only [hc]
    exact h.raised
  · simp only [hc]
    exact h.lowered
  · exact hw

theorem guarded_transmit {i : Nat} {found : Bool} (h : Guarded targets w s)
    (hs : step targets (w, s) (.transmit i found) = some (w', s')) : Guarded targets w' s' := by
  obtain ⟨pc, t, x, hpc, hm, rfl, rfl⟩ := step_transmit_inv hs
  have hcount := countP_advance TransmitPc.holding hpc x
  have hmutex := h.mutex
  have hmem := mem_of_at hpc
  -- between two points behind the lock
  have hheld : pc.holding = true → (∃ pc', x = some pc' ∧ pc'.holding = true) →
      (advance s.running i x).countP TransmitPc.holding = s.onTransmission.toNat := by
    rintro hp ⟨pc', rfl, hp'⟩
    simp only [hp, hp', Option.elim_some, Bool.toNat_true] at hcount
    omega
  cases hm with
  | lock hfree =>
    refine guarded_task h ⟨rfl, rfl, rfl⟩ ?_ (by simp [TransmitPc.busy]) (by simp) h.writes
    simp only [TransmitPc.holding, Option.elim_some, Bool.toNat_true, Bool.toNat_false, hfree] at hcount hmutex
    simp only [Bool.toNat_true]
    omega
  | stay hst =>
    have he : s.enabled = true := by
      simp only [State.shouldTransmit, Bool.and_eq_true] at hst
      exact hst.2
    exact guarded_task h ⟨rfl, rfl, rfl⟩ (hheld rfl ⟨_, rfl, rfl⟩) (fun _ _ _ => .inl he) (by simp) h.writes
  | leave hst =>
    exact guarded_task h ⟨rfl, rfl, rfl⟩ (hheld rfl ⟨_, rfl, rfl⟩) (by simp [TransmitPc.busy]) (by simp) h.writes
  | store =>
    exact guarded_task h ⟨rfl, rfl, rfl⟩ (hheld rfl ⟨_, rfl, rfl⟩) (fun _ _ _ => h.busy _ hmem rfl) (by simp) h.writes
  | noData he hh =>
    exact guarded_task h ⟨rfl, rfl, rfl⟩ (hheld rfl ⟨_, rfl, rfl⟩) (fun _ _ _ => h.busy _ hmem rfl) (by simp) h.writes
  | retry =>
    exact guarded_task h ⟨rfl, rfl, rfl⟩ (hheld rfl ⟨_, rfl, rfl⟩) (by simp [TransmitPc.busy]) (by simp) h.writes
  | discarded n c rest he hh =>
    exact guarded_task h ⟨rfl, rfl, rfl⟩ (hheld rfl ⟨_, rfl, rfl⟩) (by simp [TransmitPc.busy]) (by simp) h.writes
  | taken n c rest he hh =>
    refine guarded_task h ⟨rfl, rfl, rfl⟩ (hheld rfl ⟨_, rfl, rfl⟩) (fun _ _ _ => h.busy _ hmem rfl) ?_ h.writes
    intro n' data' rest' hx
    cases hx
    exact ⟨h.reader he, fun p hp => hp⟩
  | last hst =>
    exact guarded_task h ⟨rfl, rfl, rfl⟩ (hheld rfl ⟨_, rfl, rfl⟩) (by simp [TransmitPc.busy]) (by simp) h.writes
  | again hst =>
    exact guarded_task h ⟨rfl, rfl, rfl⟩ (hheld rfl ⟨_, rfl, rfl⟩) (by simp [TransmitPc.busy]) (by simp) h.writes
  | written n data =>
    exact guarded_task h ⟨rfl, rfl, rfl⟩ (hheld rfl ⟨_, rfl, rfl⟩) (by simp [TransmitPc.busy]) (by simp) h.writes
  | write n data p rest =>
    obtain ⟨hon, hsub⟩ := h.sample n data (p :: rest) hmem
    refine guarded_task h ⟨rfl, rfl, rfl⟩ (hheld rfl ⟨_, rfl, rfl⟩) (fun _ _ _ => h.busy _ hmem rfl) ?_ ?_
    · intro n' data' rest' hx
      cases hx
      exact ⟨hon, fun q hq => hsub q (by simp [hq])⟩
    · intro c hc
      rcases List.mem_append.mp hc with hc | hc
      · exact h.writes c hc
      · rw [List.mem_singleton.mp hc]
        exact h.writers hon p (hsub p (by simp))
  | unlock =>
    refine guarded_task h ⟨rfl, rfl, rfl⟩ ?_ (by simp) (by simp) h.writes
    have hle := toNat_le_countP TransmitPc.holding hpc
    simp only [TransmitPc.holding, Option.elim_none, Bool.toNat_true] at hcount hle
    have hone : s.onTransmission.toNat ≤ 1 := Bool.toNat_le _
    simp only [Bool.toNat_false]
    omega

/-- On its own a track keeps its writers safe. -/
theorem guarded_step {a : Action} (h : Guarded targets w s)
    (hs : step targets (w, s) a = some (w', s')) : Guarded targets w' s' := by
  cases a with
  | arrive c =>
    cases hs
    exact guarded_congr h rfl rfl rfl rfl rfl rfl
  | callback i => exact guarded_callback h hs
  | enable =>
    obtain ⟨hc, rfl, ⟨-, rfl⟩ | ⟨he, rfl⟩⟩ := step_enable_inv hs
    · exact h
    · refine guarded_phase h (by simp [ControlPc.flag, he]) (by simp [he, hc]) ?_ (by simp) (by simp)
      simp [State.writersOn, hc, he]
  | disable =>
    obtain ⟨hc, rfl, ⟨-, rfl⟩ | ⟨he, rfl⟩⟩ := step_disable_inv hs
    · exact h
    · refine guarded_phase h (by simp [ControlPc.flag, he]) (fun _ => .inl he) ?_ (by simp) (by simp)
      simp [State.writersOn, hc, he]
  | control => exact guarded_control h hs
  | start =>
    obtain ⟨-, rfl, rfl⟩ := step_start_inv hs
    constructor
    · exact h.flag
    · simpa [TransmitPc.holding] using h.mutex
    · intro pc hpc hb
      rcases List.mem_append.mp hpc with hpc | hpc
      · exact h.busy pc hpc hb
      · rw [List.mem_singleton.mp hpc] at hb
        simp [TransmitPc.busy] at hb
    · exact h.reader
    · intro n data rest hmem
      exact h.sample n data rest (by simpa using hmem)
    · exact h.writers
    · exact h.raised
    · exact h.lowered
    · exact h.writes
  | transmit i found => exact guarded_transmit h hs

/-- What a step does to the flags of the writers: only `enable` and `disable`
touch them, one at a time. -/
theorem step_writers {a : Action} (hs : step targets (w, s) a = some (w', s')) :
    w' = w ∨ a = .control ∧ ∃ p rest,
      (s.control = .enWriters (p :: rest) ∧ w' = w.put p true) ∨
      (s.control = .disWriters (p :: rest) ∧ w' = w.put p false) := by
  cases a with
  | arrive c =>
    cases hs
    exact .inl rfl
  | callback i =>
    obtain ⟨-, -, h, -⟩ := step_callback_inv hs
    exact .inl h
  | enable | disable => exact .inl (step_called (by simp) hs).1
  | control =>
    cases step_control_inv hs with
    | enWriter p rest hc => exact .inr ⟨rfl, p, rest, .inl ⟨hc, rfl⟩⟩
    | disWriter p rest hc => exact .inr ⟨rfl, p, rest, .inr ⟨hc, rfl⟩⟩
    | enSet | enReader | enCallback | disSet | disWait | disReader | disDone => exact .inl rfl
  | start =>
    obtain ⟨-, h, -⟩ := step_start_inv hs
    exact .inl h
  | transmit i found =>
    obtain ⟨-, -, -, -, -, h, -⟩ := step_transmit_inv hs
    exact .inl h

/-- Only `enable`, `disable` and their steps move the control thread. -/
theorem step_control_eq {a : Action} (ha : a ≠ .enable ∧ a ≠ .disable ∧ a ≠ .control)
    (hs : step targets (w, s) a = some (w', s')) : s'.control = s.control := by
  cases a with
  | arrive c =>
    cases hs
    rfl
  | callback i =>
    obtain ⟨pc, -, -, rfl⟩ := step_callback_inv hs
    obtain ⟨st, r, q, l, hf⟩ := callbackStep_frame s pc
    simp only [hf]
  | enable => exact absurd rfl ha.1
  | disable => exact absurd rfl ha.2.1
  | control => exact absurd rfl ha.2.2
  | start =>
    obtain ⟨-, -, rfl⟩ := step_start_inv hs
    rfl
  | transmit i found =>
    obtain ⟨pc, t, x, -, hm, -, rfl⟩ := step_transmit_inv hs
    cases hm <;> rfl

end Preservation

end DDSRouter.Track

namespace DDSRouter.DDSBridge

open Track Runs

/-- The track whose `disable` switches off a writer with the next step of the
walk, and the writer. -/
def Bridge.switchingOff (b : Bridge) : Option (ParticipantId × ParticipantId) :=
  match b.walk with
  | .inside _ id _ =>
    match (b.tracks id).control with
    | .disWriters (p :: _) => some (id, p)
    | _ => none
  | _ => none

theorem switchingOff_some {b : Bridge} {id p : ParticipantId} (h : (id, p) ∈ b.switchingOff) :
    ∃ e rest rest', b.walk = .inside e id rest ∧ (b.tracks id).control = .disWriters (p :: rest') := by
  simp only [Bridge.switchingOff, Option.mem_def] at h
  split at h
  · rename_i e id' rest hw
    split at h
    · rename_i p' rest' hc
      cases h
      exact ⟨e, rest, rest', hw, hc⟩
    · cases h
  · cases h

/-- A writer is switched off only when every other track that has it is
disabled already. -/
def SwitchesOffUnused (db : ParticipantsDatabase) (b : Bridge) (a : Action) : Prop :=
  a = .walk → ∀ x ∈ b.switchingOff, ∀ q ∈ db.ids, q ≠ x.1 → x.2 ∈ db.writersExceptOne q →
    (b.tracks q).enabled = false

instance (db : ParticipantsDatabase) (b : Bridge) (a : Action) : Decidable (SwitchesOffUnused db b a) :=
  inferInstanceAs (Decidable (a = .walk → ∀ x ∈ b.switchingOff, ∀ q ∈ db.ids, q ≠ x.1 →
    x.2 ∈ db.writersExceptOne q → (b.tracks q).enabled = false))

def WalkPc.ids : WalkPc → List ParticipantId
  | .idle => []
  | .next _ rest => rest
  | .inside _ id rest => id :: rest

/-- Every track is safe with the writers as they are, and only the track that
the walk has entered is inside `enable` or `disable`. -/
structure Safe (db : ParticipantsDatabase) (b : Bridge) : Prop where
  tracks : ∀ id ∈ db.ids, Guarded (db.writersExceptOne id) b.writers (b.tracks id)
  walking : ∀ id, (b.tracks id).control ≠ .idle → ∃ e rest, b.walk = .inside e id rest
  known : ∀ id ∈ b.walk.ids, id ∈ db.ids

section Preservation

variable {db : ParticipantsDatabase} {b : Bridge}

theorem safe_create (db : ParticipantsDatabase) : Safe db (create db) := by
  constructor
  · intro id _
    exact guarded_init _ _ _
  · intro id hc
    exact absurd rfl hc
  · simp [create, WalkPc.ids]

theorem Safe.idle_of_next (h : Safe db b) {e : Bool} {rest : List ParticipantId}
    (hw : b.walk = .next e rest) (id : ParticipantId) : (b.tracks id).control = .idle := by
  by_contra hc
  obtain ⟨e', rest', hw'⟩ := h.walking id hc
  rw [hw] at hw'
  cases hw'

theorem Safe.idle_of_inside (h : Safe db b) {e : Bool} {id q : ParticipantId}
    {rest : List ParticipantId} (hw : b.walk = .inside e id rest) (hq : q ≠ id) :
    (b.tracks q).control = .idle := by
  by_contra hc
  obtain ⟨e', rest', hw'⟩ := h.walking q hc
  rw [hw] at hw'
  cases hw'
  exact hq rfl

/-- A step of one track, seen by all of them: the others feel it only through
the flag of a writer that it switches. -/
theorem tracks_step (h : Safe db b) {id : ParticipantId} {a : Track.Action} {w : Writers}
    {t : Track.State}
    (ht : Track.step (db.writersExceptOne id) (b.writers, b.tracks id) a = some (w, t))
    (hoff : a = .control → ∀ p rest, (b.tracks id).control = .disWriters (p :: rest) →
      ∀ q ∈ db.ids, q ≠ id → p ∈ db.writersExceptOne q →
        (b.tracks q).enabled = false ∧ (b.tracks q).control = .idle) :
    ∀ q ∈ db.ids, Guarded (db.writersExceptOne q) w (Function.update b.tracks id t q) := by
  intro q hq
  by_cases hqid : q = id
  · subst hqid
    rw [Function.update_self]
    exact guarded_step (h.tracks q hq) ht
  · rw [Function.update_of_ne hqid]
    rcases step_writers ht with rfl | ⟨ha, p, rest, ⟨-, rfl⟩ | ⟨hc, rfl⟩⟩
    · exact h.tracks q hq
    · exact guarded_put_true (h.tracks q hq) p
    · exact guarded_put_false (h.tracks q hq) p (hoff ha p rest hc q hq hqid)

theorem safe_step {b' : Bridge} {a : Action} (hC : SwitchesOffUnused db b a) (h : Safe db b)
    (hs : step db b a = some b') : Safe db b' := by
  cases step_move hs with
  | stay => exact h
  | begin _ e hi =>
    refine ⟨h.tracks, fun id hc => ?_, fun id hid => hid⟩
    obtain ⟨e', rest', hw'⟩ := h.walking id hc
    simp [hi] at hw'
  | done e hw =>
    exact ⟨h.tracks, fun id hc => absurd (h.idle_of_next hw id) hc, by simp [WalkPc.ids]⟩
  | leave e id rest hw hc =>
    have hknown := h.known
    rw [hw] at hknown
    refine ⟨h.tracks, fun q hq => absurd ?_ hq, fun q hq => hknown q (List.mem_cons_of_mem id hq)⟩
    by_cases hqid : q = id
    · rw [hqid]
      exact hc
    · exact h.idle_of_inside hw hqid
  | enter e id rest w t hw ht =>
    constructor
    · apply tracks_step h ht
      intro ha
      cases e <;> simp at ha
    · intro q hc
      by_cases hqid : q = id
      · exact ⟨e, rest, by rw [hqid]⟩
      · simp only [Function.update_of_ne hqid] at hc
        exact absurd (h.idle_of_next hw q) hc
    · intro q hq
      exact h.known q (by rw [hw]; exact hq)
  | inside e id rest w t hw ht =>
    constructor
    · apply tracks_step h ht
      intro _ p rest' hc q hq hqid hp
      have hx : (id, p) ∈ b.switchingOff := by simp [Bridge.switchingOff, hw, hc]
      exact ⟨hC rfl (id, p) hx q hq hqid hp, h.idle_of_inside hw hqid⟩
    · intro q hc
      by_cases hqid : q = id
      · exact ⟨e, rest, by rw [hqid]; exact hw⟩
      · simp only [Function.update_of_ne hqid] at hc
        exact absurd (h.idle_of_inside hw hqid) hc
    · exact h.known
  | thread id a w t hid ha ht =>
    have hthread : a ≠ .enable ∧ a ≠ .disable ∧ a ≠ .control := by
      cases a <;> simp [ofOtherThread] at ha ⊢
    constructor
    · apply tracks_step h ht
      intro hc
      exact absurd hc hthread.2.2
    · intro q hc
      apply h.walking q
      by_cases hqid : q = id
      · subst hqid
        simp only [Function.update_self] at hc
        rwa [step_control_eq hthread ht] at hc
      · simpa only [Function.update_of_ne hqid] using hc
    · exact h.known

end Preservation

/-- In every run of a bridge in which `disable` of a track switches off only
writers that no enabled track has, every sample is written through writers that
are enabled. -/
theorem writes_enabled_of_switchesOffUnused (db : ParticipantsDatabase) (as : List Action) (b : Bridge)
    (hoff : Along (step db) (SwitchesOffUnused db) (create db) as)
    (hrun : run (step db) (create db) as = some b) :
    ∀ id ∈ db.ids, ∀ c ∈ (b.tracks id).log.writes, c.enabled = true := by
  have h : Safe db b :=
    run_invariant_of_along (fun _ _ _ hC hI hs => safe_step hC hI hs) (safe_create db) hoff hrun
  intro id hid
  exact (h.tracks id hid).writes

/-- Where no two tracks have a writer in common, as between two participants
that are not repeaters, every run is of this kind. -/
theorem writes_enabled_of_unshared (db : ParticipantsDatabase)
    (hdisj : ∀ id q p, p ∈ db.writersExceptOne id → p ∈ db.writersExceptOne q → q = id)
    (as : List Action) (b : Bridge) (hrun : run (step db) (create db) as = some b) :
    ∀ id ∈ db.ids, ∀ c ∈ (b.tracks id).log.writes, c.enabled = true := by
  have hstep : ∀ b a b', Safe db b → step db b a = some b' → Safe db b' := by
    intro b a b' h hs
    refine safe_step ?_ h hs
    rintro - ⟨id, p⟩ hx q - hqid hp
    obtain ⟨e, rest, rest', hw, hc⟩ := switchingOff_some hx
    have hid : id ∈ db.ids := h.known id (by simp [hw, WalkPc.ids])
    have hown : p ∈ db.writersExceptOne id := (h.tracks id hid).lowered _ hc p (by simp)
    exact absurd (hdisj id q p hown hp) hqid
  have h : Safe db b := run_invariant hstep (safe_create db) hrun
  intro id hid
  exact (h.tracks id hid).writes

def readerIn (id : ParticipantId) : Reader :=
  { participantId := id, guid := ⟨1, 1⟩, topic := { topicName := "t", typeName := "T" } }

def change : CacheChange := { writerGuid := ⟨2, 1⟩, sequenceNumber := 1, length := 4, maxSize := 4 }

/-- A sample arrives in one participant, is reported, and the task takes it. -/
def sampleIn (id : ParticipantId) : List Action :=
  ([.arrive change, .callback 0, .callback 0, .callback 0, .callback 0, .start, .transmit 0 true,
    .transmit 0 true, .transmit 0 true, .transmit 0 true] : List Track.Action).map (Action.track id)

def twoParticipants : ParticipantsDatabase where
  ids := [⟨"a"⟩, ⟨"b"⟩]
  nodup := by decide
  isRepeater _ := false
  createReader := readerIn

def threeParticipants : ParticipantsDatabase where
  ids := [⟨"a"⟩, ⟨"b"⟩, ⟨"c"⟩]
  nodup := by decide
  isRepeater _ := false
  createReader := readerIn

/-- The tracks of `a` and `b` each forward a sample, then `disable` of the bridge begins. -/
def forwardedByTwo : List Action :=
  List.flatten
    [.enable :: List.replicate 19 .walk, sampleIn ⟨"a"⟩, List.replicate 8 (.track ⟨"a"⟩ (.transmit 0 true)),
      sampleIn ⟨"b"⟩, List.replicate 8 (.track ⟨"b"⟩ (.transmit 0 true)), .disable :: List.replicate 4 .walk]

/-- Both tracks have the writer of `c`, and it is enabled whenever one of them writes. -/
theorem writes_enabled_between_three :
    ∃ b, run (step threeParticipants) (create threeParticipants) forwardedByTwo = some b ∧
      (b.tracks ⟨"a"⟩).log.writes.map WriteCall.writer = [⟨"b"⟩, ⟨"c"⟩] ∧
      (b.tracks ⟨"b"⟩).log.writes.map WriteCall.writer = [⟨"a"⟩, ⟨"c"⟩] ∧
      (∀ c ∈ (b.tracks ⟨"a"⟩).log.writes, c.enabled = true) ∧ ∀ c ∈ (b.tracks ⟨"b"⟩).log.writes, c.enabled = true := by
  have hcheck : (run (step threeParticipants) (create threeParticipants) forwardedByTwo).map (fun b =>
      ((b.tracks ⟨"a"⟩).log.writes.map WriteCall.writer, (b.tracks ⟨"b"⟩).log.writes.map WriteCall.writer)) =
        some ([⟨"b"⟩, ⟨"c"⟩], [⟨"a"⟩, ⟨"c"⟩]) := by
    decide +kernel
  obtain ⟨b, hrun, hwrites⟩ := Option.map_eq_some_iff.mp hcheck
  obtain ⟨ha, hb⟩ := Prod.mk.inj hwrites
  have hsafe := writes_enabled_of_switchesOffUnused threeParticipants forwardedByTwo b (by decide +kernel) hrun
  exact ⟨b, hrun, ha, hb, hsafe ⟨"a"⟩ (by decide), hsafe ⟨"b"⟩ (by decide)⟩

/-- The track of `b` has a sample in hand while `disable` of the bridge
switches off the writers of the track of `a`, and `c` is one of them. -/
def disabledUnderSample : List Action :=
  List.flatten
    [.enable :: List.replicate 19 .walk, sampleIn ⟨"b"⟩, .disable :: List.replicate 6 .walk,
      List.replicate 2 (.track ⟨"b"⟩ (.transmit 0 true))]

theorem write_through_disabled_writer :
    ¬ ∀ (db : ParticipantsDatabase) (as : List Action) (b : Bridge),
      run (step db) (create db) as = some b →
        ∀ id ∈ db.ids, ∀ c ∈ (b.tracks id).log.writes, c.enabled = true := by
  intro h
  have hrun : ∃ b, run (step threeParticipants) (create threeParticipants) disabledUnderSample = some b ∧
      (b.tracks ⟨"b"⟩).log.writes.map (fun c => (c.writer, c.enabled)) =
        [(⟨"a"⟩, true), (⟨"c"⟩, false)] := ⟨_, rfl, by decide⟩
  obtain ⟨b, hrun, hw⟩ := hrun
  have hall := h threeParticipants disabledUnderSample b hrun ⟨"b"⟩ (by decide)
  have hmem : (⟨"c"⟩, false) ∈ (b.tracks ⟨"b"⟩).log.writes.map (fun c => (c.writer, c.enabled)) := by
    rw [hw]
    decide
  obtain ⟨c, hc, heq⟩ := List.mem_map.mp hmem
  have htrue := hall c hc
  simp [htrue] at heq

end DDSRouter.DDSBridge
