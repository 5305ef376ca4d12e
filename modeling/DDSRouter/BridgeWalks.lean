import DDSRouter.BridgeWriters

/-!
# Enabling and disabling a bridge

`enable` and `disable` of a bridge walk through its tracks while listener and pool
threads go on. The writers are shared and say little about one track, so the
invariant here leaves them out: the flag of a track, who is inside its `enable` or
`disable`, and who holds its transmission mutex. It tells which value the flag of
every track has at every point of the walk, that a track which is off passes nothing
on, and that the walk can always be brought to its end.
-/
namespace DDSRouter.Track

open Threads

/-- The flag of a track against the threads that depend on it, whatever the writers are. -/
structure Tidy (s : State) : Prop where
  flag : ∀ b, s.control.flag = some b → s.enabled = b
  mutex : s.running.countP TransmitPc.holding = s.onTransmission.toNat
  busy : ∀ pc ∈ s.running, pc.busy = true → s.enabled = true ∨ s.control = .disWait

section Preservation

variable {targets : List ParticipantId} {w w' : Writers} {s s' : State}

theorem tidy_init (r : Reader) : Tidy (init r) := by
  refine ⟨?_, rfl, ?_⟩
  · simp [init, ControlPc.flag]
  · simp [init]

theorem tidy_congr (h : Tidy s) (he : s'.enabled = s.enabled) (hc : s'.control = s.control)
    (hm : s'.onTransmission = s.onTransmission) (hrun : s'.running = s.running) : Tidy s' := by
  constructor
  · rw [hc, he]
    exact h.flag
  · rw [hrun, hm]
    exact h.mutex
  · rw [hrun, hc, he]
    exact h.busy

/-- The control thread moves; tasks that were let in stay let in. -/
theorem tidy_phase {e : Bool} {c : ControlPc} {r : Reader} (h : Tidy s) (hflag : ∀ b, c.flag = some b → e = b)
    (hbusy : s.enabled = true ∨ s.control = .disWait → e = true ∨ c = .disWait) :
    Tidy { s with enabled := e, reader := r, control := c } := by
  constructor
  · exact hflag
  · exact h.mutex
  · exact fun pc hpc hb => hbusy (h.busy pc hpc hb)

theorem tidy_control (h : Tidy s) (hs : step targets (w, s) .control = some (w', s')) : Tidy s' := by
  cases step_control_inv hs with
  | enSet hc => exact tidy_phase h (by simp [ControlPc.flag]) (fun _ => .inl rfl)
  | enWriter p rest hc =>
    have he : s.enabled = true := h.flag true (by rw [hc]; rfl)
    exact tidy_phase h (by simp [ControlPc.flag, he]) (fun _ => .inl he)
  | enReader hc =>
    have he : s.enabled = true := h.flag true (by rw [hc]; rfl)
    refine tidy_phase h (fun b hb => ?_) (fun _ => .inl he)
    split at hb
    · cases hb
      exact he
    · cases hb
  | enCallback pc hc =>
    have he : s.enabled = true := h.flag true (by rw [hc]; rfl)
    obtain ⟨st, r, q, l, hf⟩ := callbackStep_frame s pc
    rw [hf]
    refine ⟨fun b hb => ?_, h.mutex, fun _ _ _ => .inl he⟩
    cases hnext : (callbackStep s pc).2 with
    | none =>
      simp only [hnext, Option.map_none, Option.getD_none] at hb
      cases hb
    | some pc' =>
      simp only [hnext, Option.map_some, Option.getD_some] at hb
      cases hb
      exact he
  | disSet hc => exact tidy_phase h (by simp [ControlPc.flag]) (fun _ => .inr rfl)
  | disWait hc hm =>
    have he : s.enabled = false := h.flag false (by rw [hc]; rfl)
    have hfree : s.running.countP TransmitPc.holding = 0 := by simpa [hm] using h.mutex
    refine ⟨by simp [ControlPc.flag, he], h.mutex, fun pc hpc hb => ?_⟩
    exact absurd (TransmitPc.holding_of_busy hb) (List.countP_eq_zero.mp hfree pc hpc)
  | disReader hc =>
    have he : s.enabled = false := h.flag false (by rw [hc]; rfl)
    exact tidy_phase h (by simp [ControlPc.flag, he]) (by simp [hc, he])
  | disWriter p rest hc =>
    have he : s.enabled = false := h.flag false (by rw [hc]; rfl)
    exact tidy_phase h (by simp [ControlPc.flag, he]) (by simp [hc, he])
  | disDone hc =>
    have he : s.enabled = false := h.flag false (by rw [hc]; rfl)
    exact tidy_phase h (by simp [ControlPc.flag]) (by simp [hc, he])

/-- A task of the track moves from one point to the next. -/
theorem tidy_task {t : State} {i : Nat} {x : Option TransmitPc} (h : Tidy s) (he : t.enabled = s.enabled)
    (hc : t.control = s.control) (hm : (advance s.running i x).countP TransmitPc.holding = t.onTransmission.toNat)
    (hbusy : ∀ pc, x = some pc → pc.busy = true → s.enabled = true ∨ s.control = .disWait) :
    Tidy { t with running := advance s.running i x } := by
  constructor
  · simp only [he, hc]
    exact h.flag
  · exact hm
  · simp only [he, hc]
    intro pc hpc hb
    rcases mem_advance hpc with hmem | hx
    · exact h.busy pc hmem hb
    · exact hbusy pc hx hb

theorem tidy_transmit {i : Nat} {found : Bool} (h : Tidy s)
    (hs : step targets (w, s) (.transmit i found) = some (w', s')) : Tidy s' := by
  obtain ⟨pc, t, x, hpc, hm, -, rfl⟩ := step_transmit_inv hs
  have hcount := countP_advance TransmitPc.holding hpc x
  have hmutex := h.mutex
  have hmem := mem_of_at hpc
  have hheld : pc.holding = true → (∃ pc', x = some pc' ∧ pc'.holding = true) →
      (advance s.running i x).countP TransmitPc.holding = s.onTransmission.toNat := by
    rintro hp ⟨pc', rfl, hp'⟩
    simp only [hp, hp', Option.elim_some, Bool.toNat_true] at hcount
    omega
  cases hm with
  | lock hfree =>
    refine tidy_task h rfl rfl ?_ (by simp [TransmitPc.busy])
    simp only [TransmitPc.holding, Option.elim_some, Bool.toNat_true, Bool.toNat_false, hfree] at hcount hmutex
    simp only [Bool.toNat_true]
    omega
  | stay hst =>
    have he : s.enabled = true := by
      simp only [State.shouldTransmit, Bool.and_eq_true] at hst
      exact hst.2
    exact tidy_task h rfl rfl (hheld rfl ⟨_, rfl, rfl⟩) (fun _ _ _ => .inl he)
  | store | noData | taken | write =>
    exact tidy_task h rfl rfl (hheld rfl ⟨_, rfl, rfl⟩) (fun _ _ _ => h.busy _ hmem rfl)
  | leave | retry | discarded | last | again | written =>
    exact tidy_task h rfl rfl (hheld rfl ⟨_, rfl, rfl⟩) (by simp [TransmitPc.busy])
  | unlock =>
    refine tidy_task h rfl rfl ?_ (by simp)
    have hle := toNat_le_countP TransmitPc.holding hpc
    simp only [TransmitPc.holding, Option.elim_none, Bool.toNat_true] at hcount hle
    have hone : s.onTransmission.toNat ≤ 1 := Bool.toNat_le _
    simp only [Bool.toNat_false]
    omega

theorem tidy_step {a : Action} (h : Tidy s) (hs : step targets (w, s) a = some (w', s')) : Tidy s' := by
  cases a with
  | arrive c =>
    cases hs
    exact tidy_congr h rfl rfl rfl rfl
  | callback i =>
    obtain ⟨pc, -, -, rfl⟩ := step_callback_inv hs
    obtain ⟨st, r, q, l, hf⟩ := callbackStep_frame s pc
    rw [hf]
    exact tidy_congr h rfl rfl rfl rfl
  | enable =>
    obtain ⟨hc, -, ⟨-, rfl⟩ | ⟨he, rfl⟩⟩ := step_enable_inv hs
    · exact h
    · exact tidy_phase h (by simp [ControlPc.flag, he]) (by simp [he, hc])
  | disable =>
    obtain ⟨hc, -, ⟨-, rfl⟩ | ⟨he, rfl⟩⟩ := step_disable_inv hs
    · exact h
    · exact tidy_phase h (by simp [ControlPc.flag, he]) (fun _ => .inl he)
  | control => exact tidy_control h hs
  | start =>
    obtain ⟨-, -, rfl⟩ := step_start_inv hs
    refine ⟨h.flag, by simpa [TransmitPc.holding] using h.mutex, fun pc hpc hb => ?_⟩
    rcases List.mem_append.mp hpc with hpc | hpc
    · exact h.busy pc hpc hb
    · rw [List.mem_singleton.mp hpc] at hb
      simp [TransmitPc.busy] at hb
  | transmit i found => exact tidy_transmit h hs

end Preservation

/-! ### Where a track is heading -/

/-- The value that `enabled_` has when the thread leaves `enable` or `disable`. -/
def ControlPc.direction : ControlPc → Option Bool
  | .idle => none
  | .enSet | .enWriters _ | .enCallback _ => some true
  | .disSet | .disWait | .disReader | .disWriters _ => some false

/-- The flag is `e`, or a thread is on the way to make it so. -/
def Heading (e : Bool) (s : State) : Prop := s.control.direction.getD s.enabled = e

section Heading

variable {targets : List ParticipantId} {w w' : Writers} {s s' : State} {e : Bool}

theorem heading_idle (hc : s.control = .idle) : Heading e s ↔ s.enabled = e := by
  rw [Heading, hc]
  exact Iff.rfl

/-- The walk enters the track: whatever its flag is, it is headed where the walk is. -/
theorem heading_entered (h : step targets (w, s) (if e then .enable else .disable) = some (w', s')) : Heading e s' := by
  cases e with
  | true =>
    obtain ⟨hc, -, ⟨he, rfl⟩ | ⟨-, rfl⟩⟩ := step_enable_inv h
    · rwa [heading_idle hc]
    · rfl
  | false =>
    obtain ⟨hc, -, ⟨he, rfl⟩ | ⟨-, rfl⟩⟩ := step_disable_inv h
    · rwa [heading_idle hc]
    · rfl

theorem heading_control (ht : Tidy s) (hh : Heading e s) (hs : step targets (w, s) .control = some (w', s')) :
    Heading e s' := by
  cases step_control_inv hs with
  | enReader hc =>
    have he : s.enabled = true := ht.flag true (by rw [hc]; rfl)
    rw [Heading, hc] at hh
    rw [Heading]
    split
    · exact hh
    · exact he.trans hh
  | enCallback pc hc =>
    have he : s.enabled = true := ht.flag true (by rw [hc]; rfl)
    obtain ⟨st, r, q, l, hf⟩ := callbackStep_frame s pc
    rw [Heading, hc] at hh
    rw [Heading, hf]
    cases (callbackStep s pc).2 with
    | none => exact he.trans hh
    | some pc' => exact hh
  | disDone hc =>
    have he : s.enabled = false := ht.flag false (by rw [hc]; rfl)
    rw [Heading, hc] at hh
    exact he.trans hh
  | enSet hc | enWriter _ _ hc | disSet hc | disWait hc | disReader hc | disWriter _ _ hc =>
    rw [Heading, hc] at hh
    exact hh

/-- Threads other than the one in `enable` or `disable` leave the flag and that thread alone. -/
theorem step_thread_frame {a : Action} (ha : a ≠ .enable ∧ a ≠ .disable ∧ a ≠ .control)
    (hs : step targets (w, s) a = some (w', s')) : s'.enabled = s.enabled ∧ s'.control = s.control := by
  refine ⟨?_, step_control_eq ha hs⟩
  cases a with
  | arrive c =>
    cases hs
    rfl
  | callback i =>
    obtain ⟨pc, -, -, rfl⟩ := step_callback_inv hs
    obtain ⟨st, r, q, l, hf⟩ := callbackStep_frame s pc
    simp only [hf]
  | enable => exact absurd rfl ha.1
  | disable => exact absurd rfl ha.2.1
  | control => exact absurd rfl ha.2.2
  | start =>
    obtain ⟨-, -, rfl⟩ := step_start_inv hs
    rfl
  | transmit i found =>
    obtain ⟨pc, t, x, -, hm, -, rfl⟩ := step_transmit_inv hs
    cases hm <;> rfl

theorem heading_thread {a : Action} (hh : Heading e s) (ha : a ≠ .enable ∧ a ≠ .disable ∧ a ≠ .control)
    (hs : step targets (w, s) a = some (w', s')) : Heading e s' := by
  obtain ⟨he, hc⟩ := step_thread_frame ha hs
  rw [Heading, he, hc]
  exact hh

end Heading

/-! ### What a track passes on -/

/-- The samples that the track took, those it forwarded, and its calls of `write`. -/
def Log.passed (l : Log) : List Nat × List (Arrival DataReceived) × List WriteCall := (l.taken, l.forwarded, l.writes)

/-- A track that is off and not in `disable` passes nothing on. -/
theorem passed_thread {targets : List ParticipantId} {w w' : Writers} {s s' : State} {a : Action} (ht : Tidy s)
    (he : s.enabled = false) (hc : s.control = .idle) (ha : a ≠ .enable ∧ a ≠ .disable ∧ a ≠ .control)
    (hs : step targets (w, s) a = some (w', s')) : s'.log.passed = s.log.passed := by
  cases a with
  | arrive c =>
    cases hs
    rfl
  | callback i =>
    obtain ⟨pc, -, -, rfl⟩ := step_callback_inv hs
    obtain ⟨done, k, hl⟩ := callbackStep_log s pc
    simp only [Log.passed, hl]
  | enable => exact absurd rfl ha.1
  | disable => exact absurd rfl ha.2.1
  | control => exact absurd rfl ha.2.2
  | start =>
    obtain ⟨-, -, rfl⟩ := step_start_inv hs
    rfl
  | transmit i found =>
    obtain ⟨pc, t, x, hpc, hm, -, rfl⟩ := step_transmit_inv hs
    have hidle : pc.busy = false := by
      by_contra hb
      rcases ht.busy pc (mem_of_at hpc) (by simpa using hb) with h | h
      · simp [he] at h
      · simp [hc] at h
    cases hm with
    | lock | stay | leave | unlock => rfl
    | store | noData | retry | discarded | taken | last | again | written | write =>
      simp [TransmitPc.busy] at hidle

/-- Inside `enable` and `disable` nothing is passed on. -/
theorem passed_control {targets : List ParticipantId} {w w' : Writers} {s s' : State}
    (hs : step targets (w, s) .control = some (w', s')) : s'.log.passed = s.log.passed := by
  cases step_control_inv hs with
  | enCallback pc hc =>
    obtain ⟨done, k, hl⟩ := callbackStep_log s pc
    simp only [Log.passed, hl]
  | enSet | enWriter | enReader | disSet | disWait | disReader | disWriter | disDone => rfl

/-! ### How far `enable` and `disable` have to go -/

/-- Operations that are left of a report. -/
def CallbackPc.left : CallbackPc → Nat
  | .added _ _ => 4
  | .test _ => 3
  | .add _ => 2
  | .emit _ => 1

/-- Operations that are left of `enable` or `disable`, at most. -/
def ControlPc.left (targets : List ParticipantId) : ControlPc → Nat
  | .idle => 0
  | .enSet => targets.length + 5
  | .enWriters rest => rest.length + 4
  | .enCallback pc => pc.left
  | .disSet => targets.length + 4
  | .disWait => targets.length + 3
  | .disReader => targets.length + 2
  | .disWriters rest => rest.length + 1

/-- Operations until a task that finds the track disabled in its next round has left. -/
def TransmitPc.left (targets : List ParticipantId) : TransmitPc → Nat
  | .lock => 0
  | .unlock => 1
  | .loop => 2
  | .sub => 3
  | .write _ _ rest => rest.length + 3
  | .take => targets.length + 4
  | .store => targets.length + 5

def State.tasksLeft (targets : List ParticipantId) (s : State) : Nat := (s.running.map (TransmitPc.left targets)).sum

section Progress

variable {targets : List ParticipantId} {w w' : Writers} {s s' : State}

theorem callbackStep_left (s : State) (pc : CallbackPc) :
    ∀ pc' ∈ (callbackStep s pc).2, pc'.left < pc.left := by
  intro pc' h
  cases pc with
  | added n c =>
    simp only [callbackStep] at h
    split at h
    · cases h
      exact Nat.lt_succ_self 3
    · cases h
  | test n =>
    simp only [callbackStep] at h
    split at h
    · cases h
      exact Nat.lt_succ_self 2
    · cases h
  | add n =>
    simp only [callbackStep] at h
    split at h
    · cases h
      exact Nat.lt_succ_self 1
    · cases h
  | emit n => cases h

theorem control_left (hs : step targets (w, s) .control = some (w', s')) :
    s'.control.left targets < s.control.left targets := by
  cases step_control_inv hs with
  | enSet hc | enWriter _ _ hc | disSet hc | disWait hc | disReader hc | disWriter _ _ hc | disDone hc =>
    simp [hc, ControlPc.left]
  | enReader hc =>
    rw [hc]
    split
    · exact Nat.lt_succ_self 3
    · exact Nat.succ_pos 3
  | enCallback pc hc =>
    have hpos : 0 < pc.left := by cases pc <;> simp [CallbackPc.left]
    rw [hc]
    cases hnext : (callbackStep s pc).2 with
    | none => exact hpos
    | some pc' => exact callbackStep_left s pc pc' hnext

/-- Only a transmission in progress stops a thread inside `enable` or `disable`. -/
theorem control_goes_on (targets : List ParticipantId) (w : Writers) (hc : s.control ≠ .idle)
    (hw : s.control ≠ .disWait ∨ s.onTransmission = false) :
    ∃ r, step targets (w, s) .control = some r := by
  simp only [step]
  cases h : s.control with
  | idle => exact absurd h hc
  | enSet | enCallback | disSet | disReader => exact ⟨_, rfl⟩
  | enWriters rest => cases rest <;> exact ⟨_, rfl⟩
  | disWriters rest => cases rest <;> exact ⟨_, rfl⟩
  | disWait =>
    rcases hw with hw | hw
    · exact absurd h hw
    · exact ⟨_, by rw [controlStep, hw]; rfl⟩

theorem sum_advance {f : TransmitPc → Nat} {l : List TransmitPc} {i : Nat} {pc : TransmitPc} (h : l[i]? = some pc)
    {x : Option TransmitPc} (hx : (x.map f).getD 0 < f pc) : ((advance l i x).map f).sum < (l.map f).sum := by
  induction l generalizing i with
  | nil => simp at h
  | cons a l ih =>
    cases i with
    | zero =>
      simp only [List.getElem?_cons_zero, Option.some.injEq] at h
      subst h
      cases x with
      | none =>
        simp only [advance, List.eraseIdx_cons_zero, List.map_cons, List.sum_cons]
        simp only [Option.map_none, Option.getD_none] at hx
        omega
      | some b =>
        simp only [advance, List.set_cons_zero, List.map_cons, List.sum_cons]
        simp only [Option.map_some, Option.getD_some] at hx
        omega
    | succ i =>
      simp only [List.getElem?_cons_succ] at h
      have := ih h
      cases x with
      | none =>
        simp only [advance, List.eraseIdx_cons_succ, List.map_cons, List.sum_cons] at this ⊢
        omega
      | some b =>
        simp only [advance, List.set_cons_succ, List.map_cons, List.sum_cons] at this ⊢
        omega

/-- While `disable` waits, the task that holds the mutex goes on and comes nearer to its end. -/
theorem holder_goes_on (targets : List ParticipantId) (w : Writers) (ht : Tidy s) (hc : s.control = .disWait)
    (hm : s.onTransmission = true) :
    ∃ i s', step targets (w, s) (.transmit i true) = some (w, s') ∧ s'.tasksLeft targets < s.tasksLeft targets := by
  have hoff : s.enabled = false := ht.flag false (by rw [hc]; rfl)
  have hcount : 0 < s.running.countP TransmitPc.holding := by
    rw [ht.mutex, hm]
    exact Nat.one_pos
  obtain ⟨pc, hmem, hheld⟩ := List.countP_pos_iff.mp hcount
  obtain ⟨i, hi⟩ := List.mem_iff_getElem?.mp hmem
  -- every point behind the lock has a step, and the test of the loop fails
  obtain ⟨t, x, hstep⟩ : ∃ t x, transmitStep targets w s true pc = some (t, x) := by
    cases pc with
    | lock => cases hheld
    | take =>
      simp only [transmitStep]
      split <;> exact ⟨_, _, rfl⟩
    | loop | store | sub | unlock => exact ⟨_, _, rfl⟩
    | write n data rest => cases rest <;> exact ⟨_, _, rfl⟩
  have hless : (x.map (TransmitPc.left targets)).getD 0 < pc.left targets := by
    cases transmitStep_inv hstep with
    | lock => cases hheld
    | stay h => simp [State.shouldTransmit, hoff] at h
    | leave | store | noData | retry | discarded | taken | last | again | written | write | unlock =>
      simp [TransmitPc.left]
  refine ⟨i, { t with running := advance s.running i x }, ?_, sum_advance hi hless⟩
  simp only [step, hi, Option.bind_some, hstep, Option.map_some]

end Progress

end DDSRouter.Track

namespace DDSRouter.DDSBridge

open Track

/-- The tracks that the walk has still to enter. -/
def WalkPc.rest : WalkPc → List ParticipantId
  | .idle => []
  | .next _ rest | .inside _ _ rest => rest

/-- The value that `enabled_` of the bridge has when its mutex is free again. -/
def Bridge.target (b : Bridge) : Bool :=
  match b.walk with
  | .idle => b.enabled
  | .next e _ | .inside e _ _ => e

/-- Tracks that the walk has not reached have the old flag of the bridge, the others have
the new one or are on the way to it, and only the track that the walk is in is on the way. -/
structure Walked (db : ParticipantsDatabase) (b : Bridge) : Prop where
  tidy : ∀ id ∈ db.ids, Tidy (b.tracks id)
  walking : ∀ id, (b.tracks id).control ≠ .idle → ∃ e rest, b.walk = .inside e id rest
  ahead : ∀ id ∈ db.ids, id ∈ b.walk.rest → Heading b.enabled (b.tracks id)
  behind : ∀ id ∈ db.ids, id ∉ b.walk.rest → Heading b.target (b.tracks id)
  fresh : b.walk.ids.Nodup
  known : ∀ id ∈ b.walk.ids, id ∈ db.ids

section Preservation

variable {db : ParticipantsDatabase} {b b' : Bridge}

/-- The readers that the tracks are created over do not matter. -/
theorem walked_create (db db' : ParticipantsDatabase) : Walked db (create db') := by
  refine ⟨fun id _ => tidy_init _, fun id hc => absurd rfl hc, ?_, fun id _ _ => rfl, List.nodup_nil, ?_⟩
  · simp [create, WalkPc.rest]
  · simp [create, WalkPc.ids]

theorem Walked.idle_of_ne (h : Walked db b) {id : ParticipantId} (hw : ∀ e rest, b.walk ≠ .inside e id rest) :
    (b.tracks id).control = .idle := by
  by_contra hc
  obtain ⟨e, rest, hw'⟩ := h.walking id hc
  exact hw e rest hw'

/-- One track takes a step and the walk stays where it is. -/
theorem walked_track (h : Walked db b) {id : ParticipantId} {t : Track.State} {w : Writers} (ht : Tidy t)
    (hh : ∀ e, Heading e (b.tracks id) → Heading e t)
    (hc : t.control = (b.tracks id).control ∨ ∃ e rest, b.walk = .inside e id rest) :
    Walked db { b with writers := w, tracks := Function.update b.tracks id t } := by
  have hcases : ∀ {P : Track.State → Prop} (q : ParticipantId), P (b.tracks q) → (P (b.tracks id) → P t) →
      P (Function.update b.tracks id t q) := by
    intro P q hq hid
    by_cases hqid : q = id
    · subst hqid
      rw [Function.update_self]
      exact hid hq
    · rwa [Function.update_of_ne hqid]
  refine ⟨fun q hq => hcases q (h.tidy q hq) fun _ => ht, fun q hq => ?_, fun q hq hr => hcases q (h.ahead q hq hr) (hh _),
    fun q hq hr => hcases q (h.behind q hq hr) (hh _), h.fresh, h.known⟩
  by_cases hqid : q = id
  · subst hqid
    simp only [Function.update_self] at hq
    rcases hc with hc | hc
    · exact h.walking q (hc ▸ hq)
    · exact hc
  · simp only [Function.update_of_ne hqid] at hq
    exact h.walking q hq

/-- The walk enters the next track. -/
theorem walked_enter (h : Walked db b) {e : Bool} {id : ParticipantId} {rest : List ParticipantId} {t : Track.State}
    {w : Writers} (hw : b.walk = .next e (id :: rest)) (ht : Tidy t) (hh : Heading e t) :
    Walked db { b with writers := w, tracks := Function.update b.tracks id t, walk := .inside e id rest } := by
  obtain ⟨htidy, hwalking, hahead, hbehind, hfresh, hknown⟩ := h
  simp only [hw, WalkPc.rest, WalkPc.ids, Bridge.target] at hwalking hahead hbehind hfresh hknown
  have hnext : ∀ q, q ≠ id → (b.tracks q).control = .idle := by
    intro q _
    by_contra hc
    obtain ⟨e', rest', hw'⟩ := hwalking q hc
    cases hw'
  refine ⟨fun q hq => ?_, fun q hq => ?_, fun q hq hr => ?_, fun q hq hr => ?_, hfresh, hknown⟩
  · by_cases hqid : q = id
    · subst hqid
      simpa only [Function.update_self]
    · simp only [Function.update_of_ne hqid]
      exact htidy q hq
  · by_cases hqid : q = id
    · exact ⟨e, rest, by rw [hqid]⟩
    · simp only [Function.update_of_ne hqid] at hq
      exact absurd (hnext q hqid) hq
  · have hqid : q ≠ id := by
      rintro rfl
      exact (List.nodup_cons.mp hfresh).1 hr
    simp only [Function.update_of_ne hqid]
    exact hahead q hq (List.mem_cons_of_mem id hr)
  · by_cases hqid : q = id
    · subst hqid
      simpa only [Function.update_self]
    · simp only [Function.update_of_ne hqid]
      exact hbehind q hq (by simp only [List.mem_cons, not_or]; exact ⟨hqid, hr⟩)

theorem walked_step {a : Action} (h : Walked db b) (hs : step db b a = some b') : Walked db b' := by
  cases step_move hs with
  | stay => exact h
  | begin _ e hi =>
    have hidle : ∀ id, (b.tracks id).control = .idle := fun id => h.idle_of_ne (by simp [hi])
    refine ⟨h.tidy, fun id hc => absurd (hidle id) hc, fun id hid _ => ?_, fun id hid hr => absurd hid hr, db.nodup,
      fun id hid => hid⟩
    have hf := h.behind id hid (by simp [hi, WalkPc.rest])
    simpa only [Bridge.target, hi] using hf
  | done e hw =>
    have hidle : ∀ id, (b.tracks id).control = .idle := fun id => h.idle_of_ne (by simp [hw])
    refine ⟨h.tidy, fun id hc => absurd (hidle id) hc, by simp [WalkPc.rest], fun id hid _ => ?_, List.nodup_nil,
      by simp [WalkPc.ids]⟩
    have hf := h.behind id hid (by simp [hw, WalkPc.rest])
    simpa only [Bridge.target, hw] using hf
  | leave e id rest hw hc =>
    obtain ⟨htidy, hwalking, hahead, hbehind, hfresh, hknown⟩ := h
    simp only [hw, WalkPc.rest, WalkPc.ids, Bridge.target] at hwalking hahead hbehind hfresh hknown
    refine ⟨htidy, fun q hq => ?_, hahead, hbehind, (List.nodup_cons.mp hfresh).2,
      fun q hq => hknown q (List.mem_cons_of_mem id hq)⟩
    obtain ⟨e', rest', hw'⟩ := hwalking q hq
    cases hw'
    exact absurd hc hq
  | enter e id rest w t hw ht =>
    have hid : id ∈ db.ids := h.known id (by simp [hw, WalkPc.ids])
    exact walked_enter h hw (tidy_step (h.tidy id hid) ht) (heading_entered ht)
  | inside e id rest w t hw ht =>
    have hid : id ∈ db.ids := h.known id (by simp [hw, WalkPc.ids])
    exact walked_track h (tidy_step (h.tidy id hid) ht) (fun e he => heading_control (h.tidy id hid) he ht)
      (.inr ⟨e, rest, hw⟩)
  | thread id a w t hid ha ht =>
    have hthread : a ≠ .enable ∧ a ≠ .disable ∧ a ≠ .control := by
      cases a <;> simp [ofOtherThread] at ha ⊢
    exact walked_track h (tidy_step (h.tidy id hid) ht) (fun e he => heading_thread he hthread ht)
      (.inl (step_control_eq hthread ht))

/-- With the mutex of the bridge free, every track has the flag of the bridge. -/
theorem Walked.settled (h : Walked db b) (hw : b.walk = .idle) {id : ParticipantId} (hid : id ∈ db.ids) :
    (b.tracks id).control = .idle ∧ (b.tracks id).enabled = b.enabled := by
  have hc : (b.tracks id).control = .idle := h.idle_of_ne (by simp [hw])
  have hf := h.behind id hid (by simp [hw, WalkPc.rest])
  rw [Bridge.target, hw, heading_idle hc] at hf
  exact ⟨hc, hf⟩

theorem step_track_inv {id : ParticipantId} {a : Track.Action} (hs : step db b (.track id a) = some b') :
    id ∈ db.ids ∧ (a ≠ .enable ∧ a ≠ .disable ∧ a ≠ .control) ∧
      ∃ w t, Track.step (db.writersExceptOne id) (b.writers, b.tracks id) a = some (w, t) ∧
        b' = { b with writers := w, tracks := Function.update b.tracks id t } := by
  simp only [step] at hs
  split at hs
  · rename_i hid
    have ha := hid.2
    refine ⟨hid.1, ?_, trackStep_some hs⟩
    cases a <;> simp [ofOtherThread] at ha ⊢
  · cases hs

theorem step_walk_target (hs : step db b .walk = some b') : b'.target = b.target := by
  cases step_move hs with
  | stay => rfl
  | begin _ e hi => simp [step, walkStep, hi] at hs
  | done e hw | leave e _ _ hw | enter e _ _ _ _ hw | inside e _ _ _ _ hw => simp [Bridge.target, hw]

/-- The call of `enable` or `disable`, which waits for the mutex of the bridge. -/
theorem step_called_target {e : Bool} (hs : step db b (if e then .enable else .disable) = some b') :
    b.walk = .idle ∧ b'.target = e ∧ b'.tracks = b.tracks := by
  cases e with
  | true =>
    simp only [if_true, step] at hs
    split at hs
    · rename_i hi
      cases hs
      cases he : b.enabled with
      | true => exact ⟨hi, by simp [Bridge.target, hi, he], rfl⟩
      | false => exact ⟨hi, rfl, rfl⟩
    · cases hs
  | false =>
    simp only [Bool.false_eq_true, if_false, step] at hs
    split at hs
    · rename_i hi
      cases hs
      cases he : b.enabled with
      | true => exact ⟨hi, rfl, rfl⟩
      | false => exact ⟨hi, by simp [Bridge.target, hi, he], rfl⟩
    · cases hs

/-- A bridge that is off and not being disabled passes nothing on. -/
theorem passed_track (h : Walked db b) (hw : b.walk = .idle) (he : b.enabled = false) {id : ParticipantId}
    {a : Track.Action} (hs : step db b (.track id a) = some b') (q : ParticipantId) :
    (b'.tracks q).log.passed = (b.tracks q).log.passed := by
  obtain ⟨hid, hthread, w, t, ht, rfl⟩ := step_track_inv hs
  obtain ⟨hc, hf⟩ := h.settled hw hid
  by_cases hqid : q = id
  · subst hqid
    simp only [Function.update_self]
    exact passed_thread (h.tidy q hid) (hf.trans he) hc hthread ht
  · simp only [Function.update_of_ne hqid]

theorem passed_called {e : Bool} (hs : step db b (if e then .enable else .disable) = some b') (q : ParticipantId) :
    (b'.tracks q).log.passed = (b.tracks q).log.passed := by
  rw [(step_called_target hs).2.2]

theorem passed_walk (hs : step db b .walk = some b') (q : ParticipantId) :
    (b'.tracks q).log.passed = (b.tracks q).log.passed := by
  have hupdate : ∀ {id : ParticipantId} {t : Track.State}, t.log.passed = (b.tracks id).log.passed →
      (Function.update b.tracks id t q).log.passed = (b.tracks q).log.passed := by
    intro id t ht
    by_cases hqid : q = id
    · subst hqid
      rwa [Function.update_self]
    · rw [Function.update_of_ne hqid]
  cases step_move hs with
  | stay | begin | done | leave => rfl
  | enter e id rest w t hw ht =>
    obtain ⟨-, c, rfl⟩ := step_called (by cases e <;> simp) ht
    exact hupdate rfl
  | inside e id rest w t hw ht => exact hupdate (passed_control ht)

end Preservation

/-! ### The end of a walk -/

/-- Steps of the walk over tracks that it has not entered, at most. -/
def ParticipantsDatabase.stepsFor (db : ParticipantsDatabase) (rest : List ParticipantId) : Nat :=
  (rest.map fun id => (db.writersExceptOne id).length + 8).sum

/-- Steps of the walk that are left, at most. -/
def Bridge.walkLeft (db : ParticipantsDatabase) (b : Bridge) : Nat :=
  match b.walk with
  | .idle => 0
  | .next _ rest => db.stepsFor rest + 1
  | .inside _ id rest => (b.tracks id).control.left (db.writersExceptOne id) + db.stepsFor rest + 2

/-- Steps of the tasks that the walk may have to wait for. -/
def Bridge.tasksLeft (db : ParticipantsDatabase) (b : Bridge) : Nat :=
  match b.walk with
  | .inside _ id _ => (b.tracks id).tasksLeft (db.writersExceptOne id)
  | _ => 0

section Progress

variable {db : ParticipantsDatabase} {b b' : Bridge}

/-- The control thread of a track right after the walk has entered it. -/
theorem entered_left {targets : List ParticipantId} {w w' : Writers} {s t : Track.State} {e : Bool}
    (ht : Track.step targets (w, s) (if e then .enable else .disable) = some (w', t)) :
    t.control.left targets ≤ targets.length + 5 := by
  cases e with
  | true =>
    obtain ⟨hc, -, ⟨-, rfl⟩ | ⟨-, rfl⟩⟩ := step_enable_inv ht
    · simp [hc, ControlPc.left]
    · simp [ControlPc.left]
  | false =>
    obtain ⟨hc, -, ⟨-, rfl⟩ | ⟨-, rfl⟩⟩ := step_disable_inv ht
    · simp [hc, ControlPc.left]
    · simp [ControlPc.left]

theorem walk_left (hs : step db b .walk = some b') : b'.walkLeft db < b.walkLeft db := by
  simp only [step] at hs
  cases hw : b.walk with
  | idle => simp [walkStep, hw] at hs
  | next e rest =>
    cases rest with
    | nil =>
      simp only [walkStep, hw, Option.some.injEq] at hs
      subst hs
      simp [Bridge.walkLeft, hw]
    | cons id rest =>
      simp only [walkStep, hw, Option.map_eq_some_iff] at hs
      obtain ⟨b₁, h₁, rfl⟩ := hs
      obtain ⟨w, t, ht, rfl⟩ := trackStep_some h₁
      have hentered := entered_left ht
      simp only [Bridge.walkLeft, hw, Function.update_self, ParticipantsDatabase.stepsFor, List.map_cons, List.sum_cons]
      omega
  | inside e id rest =>
    simp only [walkStep, hw] at hs
    split at hs
    · cases hs
      simp only [Bridge.walkLeft, hw]
      omega
    · obtain ⟨w, t, ht, rfl⟩ := trackStep_some hs
      have hcontrol := control_left ht
      simp only [Bridge.walkLeft, hw, Function.update_self]
      omega

theorem track_walkLeft {id : ParticipantId} {a : Track.Action} (hs : step db b (.track id a) = some b') :
    b'.walkLeft db = b.walkLeft db := by
  obtain ⟨-, hthread, w, t, ht, rfl⟩ := step_track_inv hs
  simp only [Bridge.walkLeft]
  split
  · rfl
  · rfl
  · rename_i e q rest hw
    by_cases hq : q = id
    · subst hq
      rw [Function.update_self, step_control_eq hthread ht]
    · rw [Function.update_of_ne hq]

theorem called_walkLeft {e : Bool} (hs : step db b (if e then .enable else .disable) = some b') :
    b'.walkLeft db ≤ db.stepsFor db.ids + 1 := by
  cases e with
  | true =>
    simp only [if_true, step] at hs
    split at hs
    · rename_i hi
      cases hs
      split
      · simp [Bridge.walkLeft, hi]
      · exact Nat.le_refl _
    · cases hs
  | false =>
    simp only [Bool.false_eq_true, if_false, step] at hs
    split at hs
    · rename_i hi
      cases hs
      split
      · exact Nat.le_refl _
      · simp [Bridge.walkLeft, hi]
    · cases hs

/-- Where the walk cannot go on by itself, the task that it waits for can. -/
theorem walk_goes_on (h : Walked db b) (hw : b.walk ≠ .idle) :
    (∃ b', step db b .walk = some b') ∨
      ∃ id i b', step db b (.track id (.transmit i true)) = some b' ∧ b'.tasksLeft db < b.tasksLeft db := by
  cases hwalk : b.walk with
  | idle => exact absurd hwalk hw
  | next e rest =>
    left
    cases rest with
    | nil => exact ⟨_, by rw [step, hwalk]; rfl⟩
    | cons id rest =>
      have hc : (b.tracks id).control = .idle := h.idle_of_ne (by simp [hwalk])
      cases e <;> exact ⟨_, by simp [step, hwalk, walkStep, trackStep, Track.step, hc]; rfl⟩
  | inside e id rest =>
    have hid : id ∈ db.ids := h.known id (by simp [hwalk, WalkPc.ids])
    by_cases hc : (b.tracks id).control = .idle
    · exact .inl ⟨_, by rw [step, hwalk, walkStep, if_pos hc]⟩
    by_cases hblocked : (b.tracks id).control = .disWait ∧ (b.tracks id).onTransmission = true
    · right
      obtain ⟨i, t, ht, hless⟩ := holder_goes_on (db.writersExceptOne id) b.writers (h.tidy id hid)
        hblocked.1 hblocked.2
      refine ⟨id, i, { b with tracks := Function.update b.tracks id t }, ?_, ?_⟩
      · rw [step, if_pos ⟨hid, rfl⟩, trackStep, ht]
        rfl
      · simpa [Bridge.tasksLeft, hwalk] using hless
    · left
      obtain ⟨r, hr⟩ := control_goes_on (db.writersExceptOne id) b.writers hc
        (by
          by_cases hd : (b.tracks id).control = .disWait
          · exact .inr (by simpa using fun hm => hblocked ⟨hd, hm⟩)
          · exact .inl hd)
      exact ⟨_, by rw [step, hwalk, walkStep, if_neg hc, trackStep, hr]; rfl⟩

end Progress

end DDSRouter.DDSBridge
