import DDSRouter.TrackWakeUp

/-!
# Forwarding on a track that stays enabled

While nobody disables the track, the counter protocol is exact: the status is
zero precisely when no task is owed, queued or in its loop, and otherwise there
is exactly one. From there three things follow for every interleaving. No two
tasks are in their loops, a status of zero means that nothing reported is left
in the history, and every sample taken is offered to every writer once, in the
order of the takes.

The counter has 32 bits and grows by two with each report, so the number of
reports between two stores has to stay below the width.
-/
namespace DDSRouter.Track

open Runs Threads

/-- `disable` is not called on the enabled track. -/
def StaysEnabled (p : Writers × State) (a : Action) : Prop := a = .disable → p.2.enabled = false

instance (p : Writers × State) (a : Action) : Decidable (StaysEnabled p a) :=
  inferInstanceAs (Decidable (a = .disable → p.2.enabled = false))

/-- Fewer than 2^31 - 1 reports since the last store to the status. -/
def FewReports (p : Writers × State) : Prop := p.2.log.adds < 2 ^ 31 - 1

instance (p : Writers × State) : Decidable (FewReports p) :=
  inferInstanceAs (Decidable (p.2.log.adds < 2 ^ 31 - 1))

def ControlPc.disabling : ControlPc → Bool
  | .disSet | .disWait | .disReader | .disWriters _ => true
  | _ => false

def CallbackPc.adding : CallbackPc → Bool
  | .add _ => true
  | _ => false

/-- A track that has not been enabled yet has done nothing. -/
structure Untouched (s : State) : Prop where
  reader : s.reader.enabled = false
  reports : ∀ pc ∈ s.reports, ∃ n c, pc = .added n c
  control : s.control = .idle ∨ s.control = .enSet
  queued : s.queued = 0
  running : s.running = []

/-- The counter protocol of a track that is never disabled. -/
structure Protocol (s : State) : Prop where
  exit : s.exit = false
  control : s.control.disabling = false
  untouched : s.enabled = false → Untouched s
  tasks : s.tasks = if s.status = noMoreData then 0 else 1
  bound : s.status ≤ 1 + 2 * s.log.adds

theorem callbackStep_tasks_eq (s : State) (pc : CallbackPc) :
    (callbackStep s pc).1.queued + emittingNext (callbackStep s pc).2 =
      s.queued + pc.emitting.toNat + if pc.adding ∧ s.status = noMoreData then 1 else 0 := by
  cases pc with
  | added n c =>
    simp only [callbackStep, CallbackPc.emitting, CallbackPc.adding]
    split <;> simp [emittingNext, CallbackPc.emitting]
  | test n =>
    simp only [callbackStep]
    split
    · simp [emittingNext, CallbackPc.emitting, CallbackPc.adding]
    · cases n <;> simp [emittingNext, CallbackPc.emitting, CallbackPc.adding]
  | add n =>
    simp only [callbackStep]
    split
    · rename_i h
      simp [emittingNext, CallbackPc.emitting, CallbackPc.adding, h]
    · rename_i h
      cases n <;> simp [emittingNext, CallbackPc.emitting, CallbackPc.adding, h]
  | emit n => cases n <;> simp [callbackStep, emittingNext, CallbackPc.emitting, CallbackPc.adding]

theorem callbackStep_status_eq (s : State) (pc : CallbackPc) :
    (callbackStep s pc).1.status = (if pc.adding then wrap (s.status + newDataArrived) else s.status) ∧
      (callbackStep s pc).1.log.adds = s.log.adds + pc.adding.toNat := by
  cases pc with
  | added n c => simp [callbackStep, CallbackPc.adding]
  | test n =>
    simp only [callbackStep]
    split
    · simp [CallbackPc.adding]
    · cases n <;> simp [CallbackPc.adding]
  | add n =>
    simp only [callbackStep]
    split
    · simp [CallbackPc.adding]
    · cases n <;> simp [CallbackPc.adding]
  | emit n => cases n <;> simp [callbackStep, CallbackPc.adding]

/-- Below the bound the 32-bit addition does not wrap. -/
theorem wrap_add {st k : Nat} (hb : st ≤ 1 + 2 * k) (hk : k + 1 < 2 ^ 31 - 1) :
    wrap (st + newDataArrived) = st + 2 := by
  simp only [wrap, newDataArrived]
  omega

theorem untouched_report {s s' : State} (h : Untouched s) (hm : ReportMove s s') : Untouched s' := by
  obtain ⟨j, pc, cs, c, hj, hr, hc⟩ := hm
  obtain ⟨n, ch, rfl⟩ := h.reports pc (mem_of_at hj)
  have hreader : (s.reader.onNewCacheChangeAdded n ch).1.enabled = false ∧
      (s.reader.onNewCacheChangeAdded n ch).2 = false := by
    simp only [Reader.onNewCacheChangeAdded, h.reader]
    split
    · simp only [Bool.false_eq_true, if_false]
      split <;> simp [Reader.remove, h.reader]
    · simp [Reader.remove, h.reader]
  have hctl : c = s.control := by
    rcases hc with hc | ⟨hc, -⟩
    · exact hc
    · rcases h.control with h' | h' <;> simp [h'] at hc
  refine ⟨hreader.1, fun pc' hpc' => ?_, by rw [hctl]; exact h.control, h.queued, h.running⟩
  simp only [State.reports, hr, callbackStep, hreader.2] at hpc'
  rcases mem_advance hpc' with hmem | hmem
  · exact h.reports pc' hmem
  · simp at hmem

theorem protocol_report {s s' : State} (h : Protocol s) (hm : ReportMove s s')
    (hfew : s'.log.adds < 2 ^ 31 - 1) : Protocol s' := by
  have hun : s.enabled = false → Untouched s' := fun he => untouched_report (h.untouched he) hm
  obtain ⟨j, pc, cs, c, hj, hr, hc⟩ := hm
  obtain ⟨st, r, q, l, hf⟩ := callbackStep_frame s pc
  have hcount := countP_advance CallbackPc.emitting hj (callbackStep s pc).2
  have htasks := callbackStep_tasks_eq s pc
  have hstatus := callbackStep_status_eq s pc
  simp only [emittingNext, hf] at htasks hstatus hfew
  have ht : State.tasks { (callbackStep s pc).1 with callbacks := cs, control := c } =
      (advance s.reports j (callbackStep s pc).2).countP CallbackPc.emitting + q +
        s.running.countP TransmitPc.active := by
    simp only [State.tasks, State.reports, hf, hr]
  have hold := h.tasks
  have hb := h.bound
  simp only [State.tasks] at hold
  refine ⟨by simpa only [hf] using h.exit, ?_, by simpa only [hf] using hun, ?_, ?_⟩
  · rcases hc with rfl | ⟨-, rfl | ⟨pc', rfl⟩⟩
    · exact h.control
    · rfl
    · rfl
  · rw [ht]
    simp only [hf]
    cases ha : pc.adding with
    | false =>
      simp only [ha, Bool.false_eq_true, false_and, if_false] at htasks hstatus
      rw [hstatus.1, ← hold]
      omega
    | true =>
      simp only [ha, true_and, if_true, Bool.toNat_true] at htasks hstatus
      have hw := wrap_add hb (by omega)
      rw [hstatus.1, hw, if_neg (by simp [noMoreData])]
      split at htasks <;> rename_i h0 <;> simp only [h0, if_true, if_false] at hold <;> omega
  · simp only [hf]
    cases ha : pc.adding with
    | false => simp only [ha, Bool.false_eq_true, if_false, Bool.toNat_false] at hstatus; omega
    | true =>
      simp only [ha, if_true, Bool.toNat_true] at hstatus
      have hw := wrap_add hb (by omega)
      omega

/-- The control thread moves without reporting: the flag can only be raised,
and the reader only be enabled on an enabled track. -/
theorem protocol_control_frame {s : State} {e : Bool} {r : Reader} {c : ControlPc} (h : Protocol s)
    (hold : s.control.report = []) (hnew : c.report.countP CallbackPc.emitting = 0)
    (hdis : c.disabling = false) (hun : e = false → Untouched { s with enabled := e, reader := r, control := c }) :
    Protocol { s with enabled := e, reader := r, control := c } :=
  ⟨h.exit, hdis, hun, by rw [tasks_control hold hnew]; exact h.tasks, h.bound⟩

theorem Protocol.enabled_of_control {s : State} (h : Protocol s)
    (hc : s.control ≠ .idle ∧ s.control ≠ .enSet) : s.enabled = true := by
  by_contra he
  rcases (h.untouched (by simpa using he)).control with h' | h'
  · exact hc.1 h'
  · exact hc.2 h'

theorem protocol_control {targets : List ParticipantId} {w w' : Writers} {s s' : State}
    (h : Protocol s) (hfew : s'.log.adds < 2 ^ 31 - 1)
    (hs : step targets (w, s) .control = some (w', s')) : Protocol s' := by
  cases step_control_inv hs with
  | enCallback pc hc => exact protocol_report h (enCallback_reportMove hc) hfew
  | enSet hc => exact protocol_control_frame h (by rw [hc]; rfl) rfl rfl (by simp)
  | enWriter p rest hc =>
    have he := h.enabled_of_control (by simp [hc])
    exact protocol_control_frame h (by rw [hc]; rfl) rfl rfl (by simp [he])
  | enReader hc =>
    have he := h.enabled_of_control (by simp [hc])
    refine protocol_control_frame h (by rw [hc]; rfl) ?_ ?_ (by simp [he])
    · split <;> rfl
    · split <;> rfl
  | disSet hc | disWait hc | disReader hc | disWriter p rest hc | disDone hc =>
    have hd := h.control
    simp [hc, ControlPc.disabling] at hd

theorem protocol_start {targets : List ParticipantId} {w w' : Writers} {s s' : State}
    (h : Protocol s) (hs : step targets (w, s) .start = some (w', s')) : Protocol s' := by
  obtain ⟨hq, -, rfl⟩ := step_start_inv hs
  refine ⟨h.exit, h.control, fun he => ?_, ?_, h.bound⟩
  · exact absurd (h.untouched he).queued (by omega)
  · have ht := h.tasks
    simp only [State.tasks, State.reports, List.countP_append, List.countP_singleton,
      TransmitPc.active, if_true] at ht ⊢
    omega

/-- A task in its loop is the only one, and the status is not zero. -/
theorem Protocol.active {s : State} (h : Protocol s) {i : Nat} {pc : TransmitPc}
    (hpc : s.running[i]? = some pc) (ha : pc.active = true) :
    s.status ≠ noMoreData ∧ s.queued = 0 ∧ s.reports.countP CallbackPc.emitting = 0 ∧
      s.running.countP TransmitPc.active = 1 := by
  have hpos := countP_pos_of_at hpc ha
  have ht := h.tasks
  simp only [State.tasks] at ht
  split at ht
  · omega
  · exact ⟨by assumption, by omega, by omega, by omega⟩

/-- A step inside the loop that leaves the status different from zero. -/
theorem protocol_active {s t : State} {i : Nat} {pc pc' : TransmitPc} (h : Protocol s)
    (hpc : s.running[i]? = some pc) (ha : pc.active = true) (ha' : pc'.active = true)
    (hstat : t.status ≠ noMoreData) (hb : t.status ≤ 1 + 2 * t.log.adds)
    (hfr : ∃ st r m l, t = { s with status := st, reader := r, onTransmission := m, log := l }) :
    Protocol { t with running := advance s.running i (some pc') } := by
  obtain ⟨st, r, m, l, rfl⟩ := hfr
  obtain ⟨-, hq, hr, hrun⟩ := h.active hpc ha
  have hcount := countP_advance TransmitPc.active hpc (some pc')
  simp only [ha, ha', Option.elim_some, Bool.toNat_true] at hcount
  refine ⟨h.exit, h.control, fun he => ?_, ?_, hb⟩
  · have hempty := (h.untouched he).running
    simp [hempty] at hpc
  · rw [if_neg hstat]
    simp only [State.tasks, State.reports] at hr ⊢
    omega

theorem protocol_transmit {targets : List ParticipantId} {w w' : Writers} {s s' : State} {i : Nat}
    {found : Bool} (h : Protocol s) (hfew : s'.log.adds < 2 ^ 31 - 1)
    (hs : step targets (w, s) (.transmit i found) = some (w', s')) : Protocol s' := by
  obtain ⟨pc, t, x, hpc, hm, -, rfl⟩ := step_transmit_inv hs
  have hen : s.enabled = true := by
    by_contra he
    have hempty := (h.untouched (by simpa using he)).running
    simp [hempty] at hpc
  cases hm with
  | lock hl => exact protocol_active h hpc rfl rfl (h.active hpc rfl).1 h.bound ⟨_, _, _, _, rfl⟩
  | stay hst => exact protocol_active h hpc rfl rfl (h.active hpc rfl).1 h.bound ⟨_, _, _, _, rfl⟩
  | leave hst => simp [State.shouldTransmit, h.exit, hen] at hst
  | store =>
    exact protocol_active h hpc rfl rfl (by simp [transmittingData, noMoreData])
      (by simp [transmittingData]) ⟨_, s.reader, s.onTransmission, _, rfl⟩
  | noData he hh => exact protocol_active h hpc rfl rfl (h.active hpc rfl).1 h.bound ⟨_, _, _, _, rfl⟩
  | retry => exact protocol_active h hpc rfl rfl (h.active hpc rfl).1 h.bound ⟨_, _, _, _, rfl⟩
  | discarded n c rest he hh =>
    exact protocol_active h hpc rfl rfl (h.active hpc rfl).1 h.bound ⟨s.status, _, s.onTransmission, _, rfl⟩
  | taken n c rest he hh =>
    exact protocol_active h hpc rfl rfl (h.active hpc rfl).1 h.bound ⟨s.status, _, s.onTransmission, _, rfl⟩
  | last hst =>
    obtain ⟨-, hq, hr, hrun⟩ := h.active hpc rfl
    have hcount := countP_advance TransmitPc.active hpc (some .unlock)
    simp only [TransmitPc.active, Option.elim_some, Bool.toNat_true, Bool.toNat_false] at hcount
    refine ⟨h.exit, h.control, fun he => ?_, ?_, Nat.zero_le _⟩
    · simp [hen] at he
    · simp only [State.tasks, State.reports, if_true] at hr ⊢
      omega
  | again hst =>
    have hne := (h.active hpc rfl).1
    have hb := h.bound
    simp only [transmittingData, noMoreData] at hst hne hfew
    have hw : wrapSub s.status transmittingData ≠ 0 ∧ wrapSub s.status transmittingData ≤ s.status := by
      simp only [wrapSub, transmittingData]
      omega
    exact protocol_active h hpc rfl rfl hw.1 (hw.2.trans hb) ⟨_, s.reader, s.onTransmission, s.log, rfl⟩
  | written n data => exact protocol_active h hpc rfl rfl (h.active hpc rfl).1 h.bound ⟨_, _, _, _, rfl⟩
  | write n data p rest =>
    exact protocol_active h hpc rfl rfl (h.active hpc rfl).1 h.bound
      ⟨s.status, s.reader, s.onTransmission, _, rfl⟩
  | unlock =>
    have hcount := countP_advance TransmitPc.active hpc none
    simp only [TransmitPc.active, Option.elim_none, Bool.toNat_false] at hcount
    refine ⟨h.exit, h.control, fun he => ?_, ?_, h.bound⟩
    · simp [hen] at he
    · have ht := h.tasks
      simp only [State.tasks, State.reports] at ht ⊢
      omega

/-- An arriving change adds its listener to the reports. -/
theorem countP_arrive (p : CallbackPc → Bool) (s : State) (c : CacheChange) :
    (s.callbacks ++ [CallbackPc.added s.log.arrivals c] ++ s.control.report).countP p =
      s.reports.countP p + (p (.added s.log.arrivals c)).toNat := by
  simp only [State.reports, List.countP_append, List.countP_singleton]
  cases p (.added s.log.arrivals c) with
  | false => simp
  | true =>
    simp only [if_true, Bool.toNat_true]
    omega

theorem protocol_arrive {s : State} (c : CacheChange) (h : Protocol s) :
    Protocol { s with
      reader := s.reader.received s.log.arrivals c
      callbacks := s.callbacks ++ [.added s.log.arrivals c]
      log := { s.log with arrivals := s.log.arrivals + 1 } } := by
  refine ⟨h.exit, h.control, fun he => ?_, ?_, h.bound⟩
  · have hu := h.untouched he
    refine ⟨hu.reader, fun pc hpc => ?_, hu.control, hu.queued, hu.running⟩
    simp only [State.reports, List.mem_append, List.mem_singleton] at hpc
    rcases hpc with (hpc | rfl) | hpc
    · exact hu.reports pc (by simp [State.reports, hpc])
    · exact ⟨_, _, rfl⟩
    · exact hu.reports pc (by simp [State.reports, hpc])
  · have ht := h.tasks
    simp only [State.tasks] at ht ⊢
    rw [State.reports, countP_arrive, ← ht]
    simp [CallbackPc.emitting]

/-- Every step on a track that stays enabled keeps the counter protocol. -/
theorem protocol_step {targets : List ParticipantId} {p p' : Writers × State} {a : Action}
    (hen : StaysEnabled p a) (hfew : FewReports p') (h : Protocol p.2)
    (hs : step targets p a = some p') : Protocol p'.2 := by
  obtain ⟨w, s⟩ := p
  obtain ⟨w', s'⟩ := p'
  cases a with
  | arrive c =>
    cases hs
    exact protocol_arrive c h
  | callback i => exact protocol_report h (callback_reportMove hs).2 hfew
  | enable =>
    obtain ⟨hc, -, ⟨-, rfl⟩ | ⟨-, rfl⟩⟩ := step_enable_inv hs
    · exact h
    · refine protocol_control_frame h (by rw [hc]; rfl) rfl rfl fun he' => ?_
      have hu := h.untouched he'
      refine ⟨hu.reader, ?_, .inr rfl, hu.queued, hu.running⟩
      simpa [State.reports, hc, ControlPc.report] using hu.reports
  | disable =>
    obtain ⟨-, -, ⟨-, rfl⟩ | ⟨he, -⟩⟩ := step_disable_inv hs
    · exact h
    · rw [show s.enabled = false from hen rfl] at he
      cases he
  | control => exact protocol_control h hfew hs
  | start => exact protocol_start h hs
  | transmit i found => exact protocol_transmit h hfew hs

theorem protocol_init (r : Reader) : Protocol (init r) :=
  ⟨rfl, rfl, fun _ => ⟨rfl, by simp [State.reports, init, ControlPc.report], .inl rfl, rfl, rfl⟩, rfl,
    Nat.zero_le _⟩

/-! ### Changes, reports and takes -/

def CallbackPc.number : CallbackPc → Option Nat
  | .added n _ => some n
  | .test n | .add n | .emit n => n

def CallbackPc.isFor (n : Nat) (pc : CallbackPc) : Bool := pc.number == some n

/-- How often change `n` is being reported or has been reported. -/
def State.marks (s : State) (n : Nat) : Nat :=
  s.reports.countP (CallbackPc.isFor n) + s.log.completed.count n

/-- How often change `n` is in the history or has been taken. -/
def State.places (s : State) (n : Nat) : Nat := s.reader.numbers.count n + s.log.taken.count n

/-- A change is one object: it is reported at most once, it is in the history
or taken but not both, and nothing is known of a change before it arrives. -/
structure Numbering (s : State) : Prop where
  marks_le : ∀ n, s.marks n ≤ 1
  places_le : ∀ n, s.places n ≤ 1
  fresh : ∀ n, s.log.arrivals ≤ n → s.marks n = 0 ∧ s.places n = 0
  known : ∀ n, 0 < s.marks n → 0 < s.places n
  forwarded : ∀ n, (s.log.forwarded.map Prod.fst).count n ≤ s.log.taken.count n

theorem count_finish (s : State) (m : Option Nat) (n : Nat) :
    (s.finish m).log.completed.count n = s.log.completed.count n + (m == some n).toNat := by
  cases m with
  | none => simp
  | some m => by_cases h : m = n <;> simp [h]

/-- A report of `n` goes on, completes, or is dropped by the listener. -/
theorem callbackStep_marks (s : State) (pc : CallbackPc) (n : Nat) :
    (callbackStep s pc).1.log.completed.count n +
        ((callbackStep s pc).2.elim 0 fun x => (x.isFor n).toNat) ≤
      s.log.completed.count n + (pc.isFor n).toNat := by
  cases pc with
  | added m c =>
    simp only [callbackStep]
    split <;> simp [CallbackPc.isFor, CallbackPc.number]
  | test m =>
    simp only [callbackStep]
    split
    · simp [CallbackPc.isFor, CallbackPc.number]
    · simp only [count_finish, Option.elim_none, CallbackPc.isFor, CallbackPc.number]
      omega
  | add m =>
    simp only [callbackStep]
    split
    · simp [CallbackPc.isFor, CallbackPc.number]
    · simp only [count_finish, Option.elim_none, CallbackPc.isFor, CallbackPc.number]
      omega
  | emit m =>
    simp only [callbackStep, count_finish, Option.elim_none, CallbackPc.isFor, CallbackPc.number]
    omega

theorem numbering_report {s s' : State} (h : Numbering s) (hm : ReportMove s s') : Numbering s' := by
  obtain ⟨j, pc, cs, c, hj, hr, -⟩ := hm
  obtain ⟨done, k, hlog⟩ := callbackStep_log s pc
  -- the report never marks a change twice
  have hmarks : ∀ n, State.marks { (callbackStep s pc).1 with callbacks := cs, control := c } n ≤
      s.marks n := by
    intro n
    have hcount := countP_advance (CallbackPc.isFor n) hj (callbackStep s pc).2
    have hle := toNat_le_countP (CallbackPc.isFor n) hj
    have hstep := callbackStep_marks s pc n
    simp only [State.marks, State.reports, hr] at hcount ⊢
    omega
  have hplaces : (∀ n, State.places { (callbackStep s pc).1 with callbacks := cs, control := c } n =
        s.places n) ∨
      ∃ m, State.marks { (callbackStep s pc).1 with callbacks := cs, control := c } m = 0 ∧
        ∀ n, State.places { (callbackStep s pc).1 with callbacks := cs, control := c } n ≤ s.places n ∧
          (n ≠ m → State.places { (callbackStep s pc).1 with callbacks := cs, control := c } n =
            s.places n) := by
    rcases callbackStep_history s pc with hrd | ⟨m, ch, rfl, hx, hrd, hl⟩
    · left
      intro n
      simp only [State.places, hrd, hlog]
    · right
      refine ⟨m, ?_, fun n => ⟨?_, fun hne => ?_⟩⟩
      · have hcount := countP_advance (CallbackPc.isFor m) hj (callbackStep s (.added m ch)).2
        have hone := h.marks_le m
        simp only [hx, Option.elim_none, State.marks, State.reports, CallbackPc.isFor,
          CallbackPc.number, beq_self_eq_true, Bool.toNat_true] at hcount hone
        simp only [State.marks, State.reports, hr, hl, hx]
        omega
      · have hc := s.reader.count_remove_le m n
        simp only [State.places, hrd, hl]
        omega
      · simp only [State.places, hrd, hl, s.reader.count_remove_of_ne hne]
  refine ⟨fun n => (hmarks n).trans (h.marks_le n), fun n => ?_, fun n hn => ?_, fun n hn => ?_, ?_⟩
  · rcases hplaces with hp | ⟨m, -, hp⟩
    · exact (hp n).le.trans (h.places_le n)
    · exact (hp n).1.trans (h.places_le n)
  · have hf := h.fresh n (by simpa only [hlog] using hn)
    have := hmarks n
    refine ⟨by omega, ?_⟩
    rcases hplaces with hp | ⟨m, -, hp⟩
    · exact (hp n).trans hf.2
    · have := (hp n).1
      omega
  · have hk := h.known n (hn.trans_le (hmarks n))
    rcases hplaces with hp | ⟨m, h0, hp⟩
    · rw [hp n]
      exact hk
    · have hne : n ≠ m := by
        rintro rfl
        omega
      rw [(hp n).2 hne]
      exact hk
  · simpa only [hlog] using h.forwarded

/-- A step that moves no change and no report. -/
theorem numbering_congr {s t : State} (h : Numbering s) (hm : ∀ n, t.marks n = s.marks n)
    (hp : ∀ n, t.places n = s.places n) (ha : t.log.arrivals = s.log.arrivals)
    (hf : ∀ n, (t.log.forwarded.map Prod.fst).count n ≤ t.log.taken.count n) : Numbering t := by
  refine ⟨fun n => ?_, fun n => ?_, fun n hn => ?_, fun n hn => ?_, hf⟩
  · rw [hm]
    exact h.marks_le n
  · rw [hp]
    exact h.places_le n
  · rw [hm, hp]
    exact h.fresh n (ha ▸ hn)
  · rw [hp]
    exact h.known n (hm n ▸ hn)

theorem numbering_arrive {s : State} (c : CacheChange) (h : Numbering s) :
    Numbering { s with
      reader := s.reader.received s.log.arrivals c
      callbacks := s.callbacks ++ [.added s.log.arrivals c]
      log := { s.log with arrivals := s.log.arrivals + 1 } } := by
  -- the new number is the only one that gains a mark and a place
  have hnew := h.fresh s.log.arrivals le_rfl
  have hmarks : ∀ n, State.marks { s with
      reader := s.reader.received s.log.arrivals c
      callbacks := s.callbacks ++ [.added s.log.arrivals c]
      log := { s.log with arrivals := s.log.arrivals + 1 } } n =
        s.marks n + (s.log.arrivals == n).toNat := by
    intro n
    have hn : (CallbackPc.added s.log.arrivals c).isFor n = (s.log.arrivals == n) := by
      simp [CallbackPc.isFor, CallbackPc.number]
    rw [State.marks, State.reports, countP_arrive, hn, State.marks]
    simp only
    omega
  have hplaces : ∀ n, State.places { s with
      reader := s.reader.received s.log.arrivals c
      callbacks := s.callbacks ++ [.added s.log.arrivals c]
      log := { s.log with arrivals := s.log.arrivals + 1 } } n =
        s.places n + (s.log.arrivals == n).toNat := by
    intro n
    simp only [State.places, Reader.count_numbers_received]
    cases s.log.arrivals == n with
    | false => simp
    | true =>
      simp only [if_true, Bool.toNat_true]
      omega
  refine ⟨fun n => ?_, fun n => ?_, fun n hn => ?_, fun n hn => ?_, h.forwarded⟩
  · rw [hmarks]
    by_cases he : s.log.arrivals = n
    · subst he
      simp [hnew.1]
    · simpa [beq_eq_false_iff_ne.mpr he] using h.marks_le n
  · rw [hplaces]
    by_cases he : s.log.arrivals = n
    · subst he
      simp [hnew.2]
    · simpa [beq_eq_false_iff_ne.mpr he] using h.places_le n
  · rw [hmarks, hplaces]
    simp only at hn
    have hne : s.log.arrivals ≠ n := by omega
    simpa [hne] using h.fresh n (by omega)
  · rw [hplaces]
    rw [hmarks] at hn
    by_cases he : s.log.arrivals = n
    · simp [he]
    · have hk := h.known n (by simpa [beq_eq_false_iff_ne.mpr he] using hn)
      omega

theorem numbering_transmit {targets : List ParticipantId} {w : Writers} {s t : State}
    {pc : TransmitPc} {x : Option TransmitPc} (h : Numbering s) (hm : TransmitMove targets w s pc t x)
    (l : List TransmitPc) : Numbering { t with running := l } := by
  have hsame : ∀ st m lw k, Numbering { s with
      status := st, onTransmission := m, running := l
      log := { s.log with writes := lw, adds := k } } := fun st m lw k =>
    numbering_congr h (fun _ => rfl) (fun _ => rfl) rfl h.forwarded
  -- taking a change moves its number from the history to the taken ones
  have hmove : ∀ (n : Nat) (c : CacheChange) (rest : List (Arrival CacheChange)) fw,
      s.reader.history = (n, c) :: rest →
      (∀ m, (fw.map Prod.fst).count m ≤ (n :: s.log.taken).count m) →
      Numbering { s with
        reader := { s.reader with history := rest }
        running := l
        log := { s.log with taken := n :: s.log.taken, forwarded := fw } } := by
    intro n c rest fw hh hfw
    refine numbering_congr h (fun _ => rfl) (fun m => ?_) rfl hfw
    simp only [State.places, Reader.numbers, hh, List.map_cons, List.count_cons]
    omega
  cases hm with
  | lock | stay | leave | store | noData | retry | last | again | written | write | unlock =>
    exact hsame _ _ _ _
  | discarded n c rest he hh =>
    refine hmove n c rest s.log.forwarded hh fun m => (h.forwarded m).trans ?_
    exact List.count_le_count_cons
  | taken n c rest he hh =>
    refine hmove n c rest _ hh fun m => ?_
    have hf := h.forwarded m
    simp only [List.map_append, List.map_cons, List.map_nil, List.count_append, List.count_cons,
      List.count_nil]
    omega

theorem numbering_move {targets : List ParticipantId} {w : Writers} {s s' : State}
    (h : Numbering s) (hm : Move targets w s s') : Numbering s' := by
  cases hm with
  | arrive c => exact numbering_arrive c h
  | report hr => exact numbering_report h hr
  | control e r c hold hr hnew =>
    refine numbering_congr h (fun n => ?_) (fun n => ?_) rfl h.forwarded
    · have h0 : c.report.countP (CallbackPc.isFor n) = 0 :=
        countP_eq_zero_of fun pc hpc => by rw [hnew pc hpc]; rfl
      simp [State.marks, State.reports, hold, h0]
    · simp [State.places, hr]
  | start hq => exact numbering_congr h (fun _ => rfl) (fun _ => rfl) rfl h.forwarded
  | transmit i pc t x hpc hm => exact numbering_transmit h hm _

theorem numbering_init (r : Reader) : Numbering (init r) := by
  refine ⟨fun n => ?_, fun n => ?_, fun n _ => ⟨?_, ?_⟩, fun n => ?_, fun n => ?_⟩ <;>
    simp [State.marks, State.places, State.reports, init, ControlPc.report, Reader.numbers]

/-! ### Nothing reported is left behind a status of zero -/

/-- The report of `n` has added to the status. -/
def State.Reported (s : State) (n : Nat) : Prop := n ∈ s.log.completed ∨ .emit (some n) ∈ s.reports

/-- The task in its loop, of which there is at most one. -/
def State.current (s : State) : Option TransmitPc := s.running.find? TransmitPc.active

/-- A reported change that is still in the history has raised the status since
the task last looked: the status is not zero, and a task that has found no data
will notice. -/
def Noticed (s : State) : Prop :=
  ∀ n, s.Reported n → n ∈ s.reader.numbers →
    s.status ≠ noMoreData ∧ (s.current = some .sub → s.status ≠ transmittingData)

/-- A step after which no more is reported and nothing new is in the history. -/
theorem noticed_mono {s t : State} (h : Noticed s) (hr : ∀ n, t.Reported n → s.Reported n)
    (hn : ∀ n, n ∈ t.reader.numbers → n ∈ s.reader.numbers) (hst : t.status = s.status)
    (hc : t.current = some .sub → s.current = some .sub) : Noticed t := by
  intro n hrep hmem
  obtain ⟨h0, h1⟩ := h n (hr n hrep) (hn n hmem)
  rw [hst]
  exact ⟨h0, fun hsub => h1 (hc hsub)⟩

theorem reported_finish {s : State} {m : Option Nat} {n : Nat} :
    n ∈ (s.finish m).log.completed ↔ m = some n ∨ n ∈ s.log.completed := by
  cases m with
  | none => simp
  | some m => simp [eq_comm]

theorem noticed_report {s s' : State} (hp : Protocol s) (h : Noticed s) (hm : ReportMove s s')
    (hfew : s'.log.adds < 2 ^ 31 - 1) : Noticed s' := by
  obtain ⟨j, pc, cs, c, hj, hr, -⟩ := hm
  have hpcmem := mem_of_at hj
  have hmem : ∀ n, .emit (some n) ∈ cs ++ c.report →
      .emit (some n) ∈ s.reports ∨ (callbackStep s pc).2 = some (.emit (some n)) := by
    intro n hn
    rw [hr] at hn
    exact mem_advance hn
  cases pc with
  | added m ch =>
    refine noticed_mono h (fun n hrep => ?_) (fun n hn => ?_) rfl id
    · rcases hrep with hrep | hrep
      · exact .inl hrep
      · rcases hmem n hrep with hrep | hrep
        · exact .inr hrep
        · simp only [callbackStep] at hrep
          split at hrep <;> simp at hrep
    · rcases callbackStep_history s (.added m ch) with hrd | ⟨m', ch', -, -, hrd, -⟩
      · simpa only [hrd] using hn
      · have hle := s.reader.count_remove_le m' n
        simp only [hrd] at hn
        exact List.count_pos_iff.mp ((List.count_pos_iff.mpr hn).trans_le hle)
  | test m =>
    have hen : s.enabled = true := by
      by_contra he
      obtain ⟨n, ch, hpc⟩ := (hp.untouched (by simpa using he)).reports _ hpcmem
      cases hpc
    simp only [callbackStep, hen, if_true] at hmem ⊢
    refine noticed_mono h (fun n hrep => ?_) (fun n hn => hn) rfl id
    rcases hrep with hrep | hrep
    · exact .inl hrep
    · rcases hmem n hrep with hrep | hrep
      · exact .inr hrep
      · simp at hrep
  | add m =>
    -- the addition takes the status to two or more
    have hstatus := (callbackStep_status_eq s (.add m)).1
    have hadds := (callbackStep_status_eq s (.add m)).2
    simp only [CallbackPc.adding, if_true, Bool.toNat_true] at hstatus hadds
    have hw := wrap_add hp.bound (by rw [← hadds]; exact hfew)
    intro n _ _
    rw [hstatus, hw]
    exact ⟨by simp [noMoreData], fun _ => by simp [transmittingData]⟩
  | emit m =>
    obtain ⟨l, hl⟩ := finish_log { s with queued := s.queued + 1 } m
    have hst : (callbackStep s (.emit m)).1.status = s.status := by simp only [callbackStep, hl]
    have hrd : (callbackStep s (.emit m)).1.reader = s.reader := by simp only [callbackStep, hl]
    have hrn : (callbackStep s (.emit m)).1.running = s.running := by simp only [callbackStep, hl]
    refine noticed_mono h (fun n hrep => ?_) (fun n hn => by simpa only [hrd] using hn) hst
      (fun hsub => by simpa only [State.current, hrn] using hsub)
    rcases hrep with hrep | hrep
    · rcases reported_finish.mp hrep with rfl | hrep
      · exact .inr hpcmem
      · exact .inl hrep
    · rcases hmem n hrep with hrep | hrep
      · exact .inr hrep
      · simp [callbackStep] at hrep

theorem Numbering.not_reported {s : State} (h : Numbering s) {n : Nat} (hn : s.log.arrivals ≤ n) :
    ¬ s.Reported n := by
  have h0 := (h.fresh n hn).1
  simp only [State.marks, Nat.add_eq_zero_iff, List.count_eq_zero] at h0
  rintro (hrep | hrep)
  · exact h0.2 hrep
  · have hpos := List.countP_eq_zero.mp h0.1 _ hrep
    simp [CallbackPc.isFor, CallbackPc.number] at hpos

/-- The step of the one task in its loop decides where that task is. -/
theorem current_advance {s : State} {i : Nat} {pc : TransmitPc} (h : Protocol s)
    (hpc : s.running[i]? = some pc) (ha : pc.active = true) (x : Option TransmitPc) :
    (advance s.running i x).find? TransmitPc.active = x.filter TransmitPc.active :=
  find?_advance (h.active hpc ha).2.2.2.le hpc ha x

theorem current_of_at {s : State} {i : Nat} {pc : TransmitPc} (h : Protocol s)
    (hpc : s.running[i]? = some pc) (ha : pc.active = true) : s.current = some pc :=
  find?_of_at (h.active hpc ha).2.2.2.le hpc ha

theorem noticed_transmit {targets : List ParticipantId} {w : Writers} {s t : State} {i : Nat}
    {pc : TransmitPc} {x : Option TransmitPc} (hp : Protocol s) (h : Noticed s)
    (hfew : s.log.adds < 2 ^ 31 - 1) (hpc : s.running[i]? = some pc)
    (hm : TransmitMove targets w s pc t x) : Noticed { t with running := advance s.running i x } := by
  -- inside the loop, away from the subtraction
  have hloop : ∀ (t : State) (pc' : TransmitPc), pc.active = true → pc' ≠ .sub →
      t.reports = s.reports → t.log.completed = s.log.completed → t.status = s.status →
      (∀ n, n ∈ t.reader.numbers → n ∈ s.reader.numbers) →
      Noticed { t with running := advance s.running i (some pc') } := by
    intro t pc' ha hne hrep hcomp hst hnum
    refine noticed_mono h (fun n hn => ?_) hnum hst fun hsub => ?_
    · rcases hn with hn | hn
      · exact .inl (hcomp ▸ hn)
      · exact .inr (hrep ▸ hn)
    · simp only [State.current, current_advance hp hpc ha] at hsub
      exact absurd (Option.eq_some_of_filter_eq_some hsub) (by simpa using hne)
  cases hm with
  | lock hl => exact hloop _ _ rfl (by simp) rfl rfl rfl fun n hn => hn
  | stay hst => exact hloop _ _ rfl (by simp) rfl rfl rfl fun n hn => hn
  | leave hst => exact hloop _ _ rfl (by simp) rfl rfl rfl fun n hn => hn
  | retry => exact hloop _ _ rfl (by simp) rfl rfl rfl fun n hn => hn
  | written n data => exact hloop _ _ rfl (by simp) rfl rfl rfl fun n hn => hn
  | write n data p rest => exact hloop _ _ rfl (by simp) rfl rfl rfl fun n hn => hn
  | discarded n c rest he hh =>
    refine hloop _ _ rfl (by simp) rfl rfl rfl fun m hm => ?_
    simp only [Reader.numbers, hh, List.map_cons]
    exact List.mem_cons_of_mem _ hm
  | taken n c rest he hh =>
    refine hloop _ _ rfl (by simp) rfl rfl rfl fun m hm => ?_
    simp only [Reader.numbers, hh, List.map_cons]
    exact List.mem_cons_of_mem _ hm
  | store =>
    intro n _ _
    refine ⟨by simp [transmittingData, noMoreData], fun hsub => ?_⟩
    simp [State.current, current_advance hp hpc rfl, TransmitPc.active] at hsub
  | noData he hh =>
    intro n _ hmem
    simp [Reader.numbers, hh] at hmem
  | last hst =>
    -- a reported change would have raised the status above one
    intro n hrep hmem
    exact absurd hst ((h n hrep hmem).2 (current_of_at hp hpc rfl))
  | again hst =>
    intro n _ _
    have hne := (hp.active hpc rfl).1
    have hb := hp.bound
    simp only [transmittingData, noMoreData] at hst hne
    refine ⟨?_, fun hsub => ?_⟩
    · simp only [wrapSub, transmittingData, noMoreData]
      omega
    · simp [State.current, current_advance hp hpc rfl, TransmitPc.active] at hsub
  | unlock =>
    refine noticed_mono h (fun n hn => hn) (fun n hn => hn) rfl fun hsub => ?_
    rwa [State.current, find?_eraseIdx hpc rfl] at hsub

theorem noticed_move {targets : List ParticipantId} {w : Writers} {s s' : State}
    (hp : Protocol s) (hn : Numbering s) (hfew : s.log.adds < 2 ^ 31 - 1)
    (hfew' : s'.log.adds < 2 ^ 31 - 1) (h : Noticed s) (hm : Move targets w s s') : Noticed s' := by
  cases hm with
  | arrive c =>
    intro n hrep hmem
    have hold : s.Reported n := by
      rcases hrep with hrep | hrep
      · exact .inl hrep
      · simp only [State.reports, List.mem_append, List.mem_singleton, reduceCtorEq, or_false] at hrep
        exact .inr (List.mem_append.mpr hrep)
    rcases Reader.mem_numbers_received.mp hmem with rfl | hmem
    · exact absurd hold (hn.not_reported le_rfl)
    · exact h n hold hmem
  | report hr => exact noticed_report hp h hr hfew'
  | control e r c hold hr hnew =>
    refine noticed_mono h (fun n hrep => ?_) (fun n hmem => hr ▸ hmem) rfl id
    rcases hrep with hrep | hrep
    · exact .inl hrep
    · rcases List.mem_append.mp hrep with hrep | hrep
      · exact .inr (List.mem_append.mpr (.inl hrep))
      · exact absurd (hnew _ hrep) (by simp)
  | start hq =>
    refine noticed_mono h (fun n hrep => hrep) (fun n hmem => hmem) rfl fun hsub => ?_
    simp only [State.current, List.find?_append] at hsub ⊢
    cases hf : s.running.find? TransmitPc.active with
    | none => simp [hf, TransmitPc.active] at hsub
    | some pc => simpa [hf] using hsub
  | transmit i pc t x hpc hm => exact noticed_transmit hp h hfew hpc hm

/-! ### Every sample to every writer -/

/-- The samples that the track has offered to one writer, in order. -/
def State.offers (s : State) (p : ParticipantId) : List (Arrival DataReceived) :=
  (s.log.writes.filter fun c => c.writer = p).map WriteCall.sample

/-- The sample that the task in its loop has still to offer to the writer. -/
def State.pending (s : State) (p : ParticipantId) : List (Arrival DataReceived) :=
  match s.current with
  | some (.write n data rest) => if p ∈ rest then [(n, data)] else []
  | _ => []

structure Offered (targets : List ParticipantId) (s : State) : Prop where
  nodup : ∀ n data rest, s.current = some (.write n data rest) → rest.Nodup
  offers : ∀ p ∈ targets, s.offers p ++ s.pending p = s.log.forwarded

def TransmitPc.isWrite : TransmitPc → Bool
  | .write _ _ _ => true
  | _ => false

theorem pending_of_not_write {s : State} (h : ∀ pc, s.current = some pc → pc.isWrite = false)
    (p : ParticipantId) : s.pending p = [] := by
  unfold State.pending
  split
  · rename_i n data rest hc
    have hw := h _ hc
    simp [TransmitPc.isWrite] at hw
  · rfl

/-- A step that offers nothing and leaves the task where it is. -/
theorem offered_congr {targets : List ParticipantId} {s t : State} (h : Offered targets s)
    (hw : t.log.writes = s.log.writes) (hf : t.log.forwarded = s.log.forwarded)
    (hc : t.current = s.current) : Offered targets t := by
  refine ⟨fun n data rest hcur => h.nodup n data rest (hc ▸ hcur), fun p hp => ?_⟩
  have ho := h.offers p hp
  simp only [State.offers, State.pending, hw, hf, hc] at ho ⊢
  exact ho

/-- A step with no sample in hand before and after it. -/
theorem offered_of_not_write {targets : List ParticipantId} {s t : State} (h : Offered targets s)
    (hw : t.log.writes = s.log.writes) (hf : t.log.forwarded = s.log.forwarded)
    (hs : ∀ pc, s.current = some pc → pc.isWrite = false)
    (ht : ∀ pc, t.current = some pc → pc.isWrite = false) : Offered targets t := by
  refine ⟨fun n data rest hcur => ?_, fun p hp => ?_⟩
  · have := ht _ hcur
    simp [TransmitPc.isWrite] at this
  · have ho := h.offers p hp
    rw [pending_of_not_write hs] at ho
    rw [pending_of_not_write ht, hf, ← ho]
    simp only [State.offers, hw]

theorem offered_transmit {targets : List ParticipantId} {w : Writers} {s t : State} {i : Nat}
    {pc : TransmitPc} {x : Option TransmitPc} (hnd : targets.Nodup) (hp : Protocol s)
    (h : Offered targets s) (hpc : s.running[i]? = some pc) (hm : TransmitMove targets w s pc t x) :
    Offered targets { t with running := advance s.running i x } := by
  -- moves between points that have no sample in hand
  have hplain : ∀ (t : State) (pc' : TransmitPc), pc.active = true → pc.isWrite = false →
      pc'.isWrite = false → t.log.writes = s.log.writes → t.log.forwarded = s.log.forwarded →
      Offered targets { t with running := advance s.running i (some pc') } := by
    intro t pc' ha hw hw' hlog hfw
    refine offered_of_not_write h hlog hfw (fun q hq => ?_) fun q hq => ?_
    · rw [current_of_at hp hpc ha, Option.some.injEq] at hq
      exact hq ▸ hw
    · simp only [State.current, current_advance hp hpc ha] at hq
      have he := Option.eq_some_of_filter_eq_some hq
      simp only [Option.some.injEq] at he
      exact he ▸ hw'
  cases hm with
  | lock hl => exact hplain _ _ rfl rfl rfl rfl rfl
  | stay hst => exact hplain _ _ rfl rfl rfl rfl rfl
  | leave hst => exact hplain _ _ rfl rfl rfl rfl rfl
  | store => exact hplain _ _ rfl rfl rfl rfl rfl
  | noData he hh => exact hplain _ _ rfl rfl rfl rfl rfl
  | retry => exact hplain _ _ rfl rfl rfl rfl rfl
  | discarded n c rest he hh => exact hplain _ _ rfl rfl rfl rfl rfl
  | last hst => exact hplain _ _ rfl rfl rfl rfl rfl
  | again hst => exact hplain _ _ rfl rfl rfl rfl rfl
  | taken n c rest he hh =>
    have hcur : s.current = some .take := current_of_at hp hpc rfl
    refine ⟨fun n' data' rest' hc => ?_, fun p hmem => ?_⟩
    · simp only [State.current, current_advance hp hpc rfl] at hc
      cases Option.eq_some_of_filter_eq_some hc
      exact hnd
    · have ho := h.offers p hmem
      rw [pending_of_not_write (by simp [hcur, TransmitPc.isWrite]), List.append_nil] at ho
      simp only [State.offers] at ho
      simp only [State.offers, State.pending, State.current, current_advance hp hpc rfl,
        Option.filter_some, TransmitPc.active, if_true, hmem, ho]
  | written n data =>
    have hcur : s.current = some (.write n data []) := current_of_at hp hpc rfl
    refine ⟨fun n' data' rest' hc => ?_, fun p hmem => ?_⟩
    · simp only [State.current, current_advance hp hpc rfl] at hc
      cases Option.eq_some_of_filter_eq_some hc
    · have ho := h.offers p hmem
      simp only [State.offers, State.pending, hcur] at ho
      simpa only [State.offers, State.pending, State.current, current_advance hp hpc rfl,
        Option.filter_some, TransmitPc.active, if_true, List.not_mem_nil, if_false] using ho
  | write n data q rest =>
    have hcur : s.current = some (.write n data (q :: rest)) := current_of_at hp hpc rfl
    have hqr := List.nodup_cons.mp (h.nodup n data (q :: rest) hcur)
    refine ⟨fun n' data' rest' hc => ?_, fun p hmem => ?_⟩
    · simp only [State.current, current_advance hp hpc rfl] at hc
      cases Option.eq_some_of_filter_eq_some hc
      exact hqr.2
    · have ho := h.offers p hmem
      simp only [State.offers, State.pending, hcur, List.mem_cons] at ho
      simp only [State.offers, State.pending, State.current, current_advance hp hpc rfl,
        Option.filter_some, TransmitPc.active, if_true, List.filter_append, List.map_append]
      by_cases hpq : p = q
      · subst hpq
        simpa [hqr.1] using ho
      · simpa [hpq, Ne.symm hpq] using ho
  | unlock => exact offered_congr h rfl rfl (find?_eraseIdx hpc rfl)

theorem offered_move {targets : List ParticipantId} {w : Writers} {s s' : State}
    (hnd : targets.Nodup) (hp : Protocol s) (h : Offered targets s) (hm : Move targets w s s') :
    Offered targets s' := by
  cases hm with
  | arrive c => exact offered_congr h rfl rfl rfl
  | report hr =>
    obtain ⟨j, pc, cs, c, -, -, -⟩ := hr
    obtain ⟨done, k, hlog⟩ := callbackStep_log s pc
    obtain ⟨st, r, q, l, hf⟩ := callbackStep_frame s pc
    refine offered_congr h (by simp only [hlog]) (by simp only [hlog]) ?_
    simp only [State.current, hf]
  | control e r c hold hr hnew => exact offered_congr h rfl rfl rfl
  | start hq =>
    -- with a task in the queue there is none in its loop
    have h0 : s.current = none := by
      have ht := hp.tasks
      simp only [State.tasks] at ht
      rw [State.current, List.find?_eq_none]
      apply List.countP_eq_zero.mp
      split at ht <;> omega
    refine offered_of_not_write h rfl rfl (by simp [h0]) fun pc hpc => ?_
    simp only [State.current, List.find?_append] at hpc h0
    rw [h0] at hpc
    simp only [List.find?_cons, TransmitPc.active, Option.none_or, Option.some.injEq] at hpc
    exact hpc ▸ rfl
  | transmit i pc t x hpc hm => exact offered_transmit hnd hp h hpc hm

theorem offered_init (targets : List ParticipantId) (r : Reader) : Offered targets (init r) :=
  ⟨by simp [State.current, init], by simp [State.offers, State.pending, State.current, init]⟩

/-! ### Whole runs -/

/-- The invariants together, with what is known of the number of reports. -/
structure Steady (targets : List ParticipantId) (p : Writers × State) : Prop where
  protocol : Protocol p.2
  numbering : Numbering p.2
  noticed : Noticed p.2
  offered : Offered targets p.2
  few : FewReports p

theorem steady_init (targets : List ParticipantId) (w : Writers) (r : Reader) :
    Steady targets (w, init r) :=
  ⟨protocol_init r, numbering_init r, fun n _ hn => by simp [init, Reader.numbers] at hn,
    offered_init targets r, by simp [FewReports, init]⟩

theorem steady_step {targets : List ParticipantId} (hnd : targets.Nodup) {p p' : Writers × State}
    {a : Action} (hen : StaysEnabled p a) (hfew : FewReports p') (h : Steady targets p)
    (hs : step targets p a = some p') : Steady targets p' := by
  have hm := step_move hs
  exact ⟨protocol_step hen hfew h.protocol hs, numbering_move h.numbering hm,
    noticed_move h.protocol h.numbering h.few hfew h.noticed hm,
    offered_move hnd h.protocol h.offered hm, hfew⟩

/-- Below a status of zero nothing reported is left: it is in the history or
taken, and in the history it would have been noticed. -/
theorem Steady.taken {targets : List ParticipantId} {p : Writers × State} (h : Steady targets p)
    (hst : p.2.status = noMoreData) {n : Nat} (hn : n ∈ p.2.log.completed) : n ∈ p.2.log.taken := by
  have hmark : 0 < p.2.marks n := by
    have := List.count_pos_iff.mpr hn
    simp only [State.marks]
    omega
  have hplace := h.numbering.known n hmark
  have hhist : n ∉ p.2.reader.numbers := fun hmem => (h.noticed n (.inl hn) hmem).1 hst
  rw [State.places, List.count_eq_zero.mpr hhist, Nat.zero_add] at hplace
  exact List.count_pos_iff.mp hplace

theorem Steady.nodup {targets : List ParticipantId} {p : Writers × State} (h : Steady targets p) :
    (p.2.log.forwarded.map Prod.fst).Nodup := by
  rw [List.nodup_iff_count]
  intro n
  have hf := h.numbering.forwarded n
  have hp := h.numbering.places_le n
  simp only [State.places] at hp
  omega

theorem Steady.one_task {targets : List ParticipantId} {p : Writers × State} (h : Steady targets p) :
    p.2.queued + p.2.running.countP TransmitPc.active ≤ 1 := by
  have ht := h.protocol.tasks
  simp only [State.tasks] at ht
  split at ht <;> omega

/-- On a track that nobody disables, under every interleaving: at most one task
is queued or has not yet made its last `fetch_sub`; a status of zero means that
every sample whose report has completed has been taken; no sample is taken
twice, and each writer is offered the samples in the order of the takes, where
only the sample that a task is writing at the moment may be missing. -/
theorem forwards_while_enabled (targets : List ParticipantId) (w : Writers) (r : Reader)
    (as : List Action) (t : Writers × State) (hnd : targets.Nodup)
    (hen : Along (step targets) StaysEnabled (w, init r) as)
    (hfew : Visits (step targets) FewReports (w, init r) as)
    (hrun : run (step targets) (w, init r) as = some t) :
    t.2.queued + t.2.running.countP TransmitPc.active ≤ 1 ∧
      (t.2.status = noMoreData → ∀ n ∈ t.2.log.completed, n ∈ t.2.log.taken) ∧
      (t.2.log.forwarded.map Prod.fst).Nodup ∧
      ∀ p ∈ targets, t.2.offers p ++ t.2.pending p = t.2.log.forwarded := by
  have h : Steady targets t :=
    run_invariant_of_visits (fun _ _ _ hc hq hI hs => steady_step hnd hc hq hI hs)
      (steady_init targets w r) hen hfew hrun
  exact ⟨h.one_task, fun hst n hn => h.taken hst hn, h.nodup, h.offered.offers⟩

/-! A task that has found no data is told of a sample before its `fetch_sub`,
goes round again and writes the sample to both writers of the track. -/

def twoWriters : List ParticipantId := [⟨"b"⟩, ⟨"c"⟩]

def sampleToBoth : List Action :=
  List.flatten
    [.enable :: List.replicate 7 .control, .start :: List.replicate 4 (.transmit 0 true),
      [.arrive sampleOfOther, .callback 0, .callback 0, .callback 0], List.replicate 11 (.transmit 0 true)]

theorem forwards_sample_to_both :
    ∃ t, run (step twoWriters) (fun _ => false, init reliableReader) sampleToBoth = some t ∧
      t.2.status = noMoreData ∧ t.2.log.completed = [0] ∧ 0 ∈ t.2.log.taken ∧
      ∀ p ∈ twoWriters, t.2.offers p = t.2.log.forwarded := by
  have hrun : ∃ t, run (step twoWriters) (fun _ => false, init reliableReader) sampleToBoth = some t ∧
      t.2.status = noMoreData ∧ t.2.log.completed = [0] ∧ t.2.current = none := ⟨_, rfl, by decide⟩
  obtain ⟨t, hrun, hst, hdone, hcur⟩ := hrun
  obtain ⟨-, htaken, -, hoffers⟩ := forwards_while_enabled twoWriters (fun _ => false) reliableReader
    sampleToBoth t (by decide) (by decide) (by decide) hrun
  refine ⟨t, hrun, hst, hdone, htaken hst 0 (by simp [hdone]), fun p hp => ?_⟩
  simpa [State.pending, hcur] using hoffers p hp

/-- The task that has made its last `fetch_sub` still holds the mutex when the
report of the next sample queues another one. -/
def lastTaskStillReturns : List Action :=
  List.flatten
    [enableAll, .start :: List.replicate 5 (.transmit 0 true),
      [.arrive sampleOfOther, .callback 0, .callback 0, .callback 0, .callback 0]]

theorem two_tasks_while_enabled :
    ¬ ∀ (targets : List ParticipantId) (w : Writers) (r : Reader) (as : List Action)
      (t : Writers × State), targets.Nodup → Along (step targets) StaysEnabled (w, init r) as →
        Visits (step targets) FewReports (w, init r) as →
        run (step targets) (w, init r) as = some t → t.2.queued + t.2.running.length ≤ 1 := by
  intro h
  have htwo : ∃ t, run (step [⟨"b"⟩]) (fun _ => false, init reliableReader) lastTaskStillReturns = some t ∧
      t.2.queued = 1 ∧ t.2.running = [.unlock] := ⟨_, rfl, by decide⟩
  obtain ⟨t, hrun, hq, hr⟩ := htwo
  have hle := h [⟨"b"⟩] _ _ _ t (by decide) (by decide) (by decide) hrun
  simp [hq, hr] at hle

end DDSRouter.Track
