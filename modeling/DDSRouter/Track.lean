import DDSRouter.Lib.Runs
import DDSRouter.Lib.Threads
import DDSRouter.Reader

/-!
# Tracks

A `Track` forwards the samples of one reader to the writers of other
participants. Three kinds of threads run its code at the same time: listener
threads of the reader in `data_available_`, threads of the pool in `transmit_`,
and one thread at a time, which holds `track_mutex_`, in `enable` or `disable`.
The model has one step for each operation that the code performs on shared
data, and a thread is the point it has reached in its function.

Nothing is assumed about the order of steps. Of the thread pool only this is
used: `emit` queues one execution of the slot, and a queued execution starts at
some later step. The writers belong to the bridge and may be shared with other
tracks, so they are not part of the track.
-/
namespace DDSRouter.Track

open Threads

/-- Arithmetic of the 32-bit `data_available_status_`. -/
def wrap (n : Nat) : Nat := n % 4294967296

def wrapSub (n k : Nat) : Nat := (n + 4294967296 - k) % 4294967296

def noMoreData : Nat := 0
def transmittingData : Nat := 1
def newDataArrived : Nat := 2

/-- Points of a thread that reports new data. The listener starts at `added`
with the change it was called for; the report that a reliable reader makes when
it is enabled has no change. -/
inductive CallbackPc where
  | added (n : Nat) (c : CacheChange)
  | test (n : Option Nat)
  | add (n : Option Nat)
  | emit (n : Option Nat)
  deriving DecidableEq, Repr

/-- Points of a thread in `transmit_`. At `write` the sample has still to be
offered to the writers of the list. -/
inductive TransmitPc where
  | lock | loop | store | take | sub
  | write (n : Nat) (data : DataReceived) (rest : List ParticipantId)
  | unlock
  deriving DecidableEq, Repr

/-- Points of the thread that holds `track_mutex_`. With no writer left,
`enWriters` is about to enable the reader. -/
inductive ControlPc where
  | idle
  | enSet
  | enWriters (rest : List ParticipantId)
  | enCallback (pc : CallbackPc)
  | disSet | disWait | disReader
  | disWriters (rest : List ParticipantId)
  deriving DecidableEq, Repr

/-- One call of `write` inside `transmit_`, and whether the writer was enabled. -/
structure WriteCall where
  writer : ParticipantId
  sample : Arrival DataReceived
  enabled : Bool
  deriving DecidableEq, Repr

/-- What has happened so far; no step depends on it, except that `arrivals`
numbers the changes. -/
structure Log where
  arrivals : Nat := 0
  completed : List Nat := []
  taken : List Nat := []
  forwarded : List (Arrival DataReceived) := []
  writes : List WriteCall := []
  adds : Nat := 0
  deriving DecidableEq, Repr

structure State where
  enabled : Bool := false
  exit : Bool := false
  status : Nat := noMoreData
  reader : Reader
  callbacks : List CallbackPc := []
  control : ControlPc := .idle
  queued : Nat := 0
  running : List TransmitPc := []
  onTransmission : Bool := false
  log : Log := {}
  deriving DecidableEq, Repr

/-- The enabled flag of each writer of the bridge. -/
abbrev Writers := ParticipantId → Bool

def Writers.put (w : Writers) (p : ParticipantId) (b : Bool) : Writers :=
  fun q => if q = p then b else w q

@[simp] theorem Writers.put_same (w : Writers) (p : ParticipantId) (b : Bool) : w.put p b p = b := by
  simp [put]

theorem Writers.put_other (w : Writers) {p q : ParticipantId} (b : Bool) (h : q ≠ p) :
    w.put p b q = w q := by simp [put, h]

namespace State

def shouldTransmit (s : State) : Bool := !s.exit && s.enabled

def finish (s : State) : Option Nat → State
  | some n => { s with log := { s.log with completed := n :: s.log.completed } }
  | none => s

end State

/-- One operation of the listener and of `data_available_`. -/
def callbackStep (s : State) : CallbackPc → State × Option CallbackPc
  | .added n c =>
    ({ s with reader := (s.reader.onNewCacheChangeAdded n c).1 },
      if (s.reader.onNewCacheChangeAdded n c).2 then some (.test (some n)) else none)
  | .test n => if s.enabled then (s, some (.add n)) else (s.finish n, none)
  | .add n =>
    let s' := { s with
      status := wrap (s.status + newDataArrived)
      log := { s.log with adds := s.log.adds + 1 } }
    if s.status = noMoreData then (s', some (.emit n)) else (s'.finish n, none)
  | .emit n => (State.finish { s with queued := s.queued + 1 } n, none)

/-- One operation of `transmit_`. The lock waits while another thread holds
`on_transmission_mutex_`; errors of `take` and of `write` are logged only. -/
def transmitStep (targets : List ParticipantId) (w : Writers) (s : State) (found : Bool) :
    TransmitPc → Option (State × Option TransmitPc)
  | .lock => if s.onTransmission then none else some ({ s with onTransmission := true }, some .loop)
  | .loop => some (s, some (if s.shouldTransmit then .store else .unlock))
  | .store =>
    some ({ s with status := transmittingData, log := { s.log with adds := 0 } }, some .take)
  | .take =>
    match s.reader.take found with
    | (.noData, r) => some ({ s with reader := r }, some .sub)
    | (.notEnabled, r) => some ({ s with reader := r }, some .loop)
    | (.notFound, r) => some ({ s with reader := r }, some .loop)
    | (.discarded n, r) =>
      some ({ s with reader := r, log := { s.log with taken := n :: s.log.taken } }, some .loop)
    | (.taken n data, r) =>
      some ({ s with
        reader := r
        log := { s.log with
          taken := n :: s.log.taken
          forwarded := s.log.forwarded ++ [(n, data)] } }, some (.write n data targets))
  | .sub =>
    some ({ s with status := wrapSub s.status transmittingData },
      some (if s.status = transmittingData then .unlock else .loop))
  | .write _ _ [] => some (s, some .loop)
  | .write n data (p :: rest) =>
    some ({ s with log := { s.log with writes := s.log.writes ++ [⟨p, (n, data), w p⟩] } },
      some (.write n data rest))
  | .unlock => some ({ s with onTransmission := false }, none)

/-- One operation of `enable` or `disable`. -/
def controlStep (targets : List ParticipantId) (w : Writers) (s : State) :
    ControlPc → Option (Writers × State)
  | .idle => none
  | .enSet => some (w, { s with enabled := true, control := .enWriters targets })
  | .enWriters (p :: rest) => some (w.put p true, { s with control := .enWriters rest })
  | .enWriters [] =>
    some (w, { s with
      reader := s.reader.enable.1
      control := if s.reader.enable.2 then .enCallback (.test none) else .idle })
  | .enCallback pc =>
    some (w, { (callbackStep s pc).1 with
      control := ((callbackStep s pc).2.map ControlPc.enCallback).getD .idle })
  | .disSet => some (w, { s with enabled := false, control := .disWait })
  | .disWait => if s.onTransmission then none else some (w, { s with control := .disReader })
  | .disReader => some (w, { s with reader := s.reader.disable, control := .disWriters targets })
  | .disWriters (p :: rest) => some (w.put p false, { s with control := .disWriters rest })
  | .disWriters [] => some (w, { s with control := .idle })

/-- The threads' steps, and what the outside does: a change is received, a
caller enters `enable` or `disable`, a pool thread starts a queued task. -/
inductive Action where
  | arrive (c : CacheChange)
  | callback (i : Nat)
  | enable | disable | control
  | start
  | transmit (i : Nat) (found : Bool)
  deriving DecidableEq, Repr

/-- A caller that finds `track_mutex_` taken waits, so its call has not begun. -/
def step (targets : List ParticipantId) : Writers × State → Action → Option (Writers × State)
  | (w, s), .arrive c =>
    some (w, { s with
      reader := s.reader.received s.log.arrivals c
      callbacks := s.callbacks ++ [.added s.log.arrivals c]
      log := { s.log with arrivals := s.log.arrivals + 1 } })
  | (w, s), .callback i =>
    (s.callbacks[i]?).map fun pc =>
      (w, { (callbackStep s pc).1 with callbacks := advance s.callbacks i (callbackStep s pc).2 })
  | (w, s), .enable =>
    if s.control = .idle then some (w, if s.enabled then s else { s with control := .enSet }) else none
  | (w, s), .disable =>
    if s.control = .idle then some (w, if s.enabled then { s with control := .disSet } else s) else none
  | (w, s), .control => controlStep targets w s s.control
  | (w, s), .start =>
    if s.queued = 0 then none
    else some (w, { s with queued := s.queued - 1, running := s.running ++ [.lock] })
  | (w, s), .transmit i found =>
    (s.running[i]?).bind fun pc =>
      (transmitStep targets w s found pc).map fun r =>
        (w, { r.1 with running := advance s.running i r.2 })

/-- A track as its constructor leaves it, over a reader that is disabled. -/
def init (r : Reader) : State := { reader := { r with enabled := false, history := [] } }

/-- What `enable` and `disable` can do in one step, with the guards. -/
inductive ControlMove (targets : List ParticipantId) (w : Writers) (s : State) :
    Writers → State → Prop where
  | enSet (hc : s.control = .enSet) :
      ControlMove targets w s w { s with enabled := true, control := .enWriters targets }
  | enWriter (p : ParticipantId) (rest : List ParticipantId) (hc : s.control = .enWriters (p :: rest)) :
      ControlMove targets w s (w.put p true) { s with control := .enWriters rest }
  | enReader (hc : s.control = .enWriters []) :
      ControlMove targets w s w { s with
        reader := s.reader.enable.1
        control := if s.reader.enable.2 then .enCallback (.test none) else .idle }
  | enCallback (pc : CallbackPc) (hc : s.control = .enCallback pc) :
      ControlMove targets w s w { (callbackStep s pc).1 with
        control := ((callbackStep s pc).2.map ControlPc.enCallback).getD .idle }
  | disSet (hc : s.control = .disSet) :
      ControlMove targets w s w { s with enabled := false, control := .disWait }
  | disWait (hc : s.control = .disWait) (hm : s.onTransmission = false) :
      ControlMove targets w s w { s with control := .disReader }
  | disReader (hc : s.control = .disReader) :
      ControlMove targets w s w { s with reader := s.reader.disable, control := .disWriters targets }
  | disWriter (p : ParticipantId) (rest : List ParticipantId) (hc : s.control = .disWriters (p :: rest)) :
      ControlMove targets w s (w.put p false) { s with control := .disWriters rest }
  | disDone (hc : s.control = .disWriters []) :
      ControlMove targets w s w { s with control := .idle }

/-- What `transmit_` can do in one step from each of its points. -/
inductive TransmitMove (targets : List ParticipantId) (w : Writers) (s : State) :
    TransmitPc → State → Option TransmitPc → Prop where
  | lock (hm : s.onTransmission = false) :
      TransmitMove targets w s .lock { s with onTransmission := true } (some .loop)
  | stay (h : s.shouldTransmit = true) : TransmitMove targets w s .loop s (some .store)
  | leave (h : s.shouldTransmit = false) : TransmitMove targets w s .loop s (some .unlock)
  | store :
      TransmitMove targets w s .store
        { s with status := transmittingData, log := { s.log with adds := 0 } } (some .take)
  | noData (he : s.reader.enabled = true) (hh : s.reader.history = []) :
      TransmitMove targets w s .take s (some .sub)
  | retry : TransmitMove targets w s .take s (some .loop)
  | discarded (n : Nat) (c : CacheChange) (rest : List (Arrival CacheChange))
      (he : s.reader.enabled = true) (hh : s.reader.history = (n, c) :: rest) :
      TransmitMove targets w s .take
        { s with
          reader := { s.reader with history := rest }
          log := { s.log with taken := n :: s.log.taken } } (some .loop)
  | taken (n : Nat) (c : CacheChange) (rest : List (Arrival CacheChange))
      (he : s.reader.enabled = true) (hh : s.reader.history = (n, c) :: rest) :
      TransmitMove targets w s .take
        { s with
          reader := { s.reader with history := rest }
          log := { s.log with
            taken := n :: s.log.taken
            forwarded := s.log.forwarded ++ [(n, s.reader.fillReceivedData c)] } }
        (some (.write n (s.reader.fillReceivedData c) targets))
  | last (h : s.status = transmittingData) :
      TransmitMove targets w s .sub { s with status := noMoreData } (some .unlock)
  | again (h : s.status ≠ transmittingData) :
      TransmitMove targets w s .sub { s with status := wrapSub s.status transmittingData } (some .loop)
  | written (n : Nat) (data : DataReceived) : TransmitMove targets w s (.write n data []) s (some .loop)
  | write (n : Nat) (data : DataReceived) (p : ParticipantId) (rest : List ParticipantId) :
      TransmitMove targets w s (.write n data (p :: rest))
        { s with log := { s.log with writes := s.log.writes ++ [⟨p, (n, data), w p⟩] } }
        (some (.write n data rest))
  | unlock : TransmitMove targets w s .unlock { s with onTransmission := false } none

section Inversion

variable {targets : List ParticipantId} {w w' : Writers} {s s' : State}

theorem step_callback_inv {i : Nat} (h : step targets (w, s) (.callback i) = some (w', s')) :
    ∃ pc, s.callbacks[i]? = some pc ∧ w' = w ∧
      s' = { (callbackStep s pc).1 with callbacks := advance s.callbacks i (callbackStep s pc).2 } := by
  simp only [step, Option.map_eq_some_iff, Prod.mk.injEq] at h
  obtain ⟨pc, hpc, rfl, rfl⟩ := h
  exact ⟨pc, hpc, rfl, rfl⟩

theorem step_start_inv (h : step targets (w, s) .start = some (w', s')) :
    0 < s.queued ∧ w' = w ∧
      s' = { s with queued := s.queued - 1, running := s.running ++ [.lock] } := by
  simp only [step] at h
  split at h
  · cases h
  · cases h
    exact ⟨Nat.pos_of_ne_zero (by assumption), rfl, rfl⟩

theorem step_enable_inv (h : step targets (w, s) .enable = some (w', s')) :
    s.control = .idle ∧ w' = w ∧ ((s.enabled = true ∧ s' = s) ∨ (s.enabled = false ∧ s' = { s with control := .enSet })) := by
  simp only [step] at h
  split at h
  · rename_i hc
    cases h
    cases he : s.enabled with
    | true => exact ⟨hc, rfl, .inl ⟨rfl, rfl⟩⟩
    | false => exact ⟨hc, rfl, .inr ⟨rfl, rfl⟩⟩
  · cases h

theorem step_disable_inv (h : step targets (w, s) .disable = some (w', s')) :
    s.control = .idle ∧ w' = w ∧ ((s.enabled = false ∧ s' = s) ∨ (s.enabled = true ∧ s' = { s with control := .disSet })) := by
  simp only [step] at h
  split at h
  · rename_i hc
    cases h
    cases he : s.enabled with
    | true => exact ⟨hc, rfl, .inr ⟨rfl, rfl⟩⟩
    | false => exact ⟨hc, rfl, .inl ⟨rfl, rfl⟩⟩
  · cases h

/-- The calls as such change the control thread only. -/
theorem step_called {a : Action} (ha : a = .enable ∨ a = .disable) (h : step targets (w, s) a = some (w', s')) :
    w' = w ∧ ∃ c, s' = { s with control := c } := by
  rcases ha with rfl | rfl
  · obtain ⟨-, hw, ⟨-, rfl⟩ | ⟨-, rfl⟩⟩ := step_enable_inv h
    · exact ⟨hw, _, rfl⟩
    · exact ⟨hw, _, rfl⟩
  · obtain ⟨-, hw, ⟨-, rfl⟩ | ⟨-, rfl⟩⟩ := step_disable_inv h
    · exact ⟨hw, _, rfl⟩
    · exact ⟨hw, _, rfl⟩

theorem step_control_inv (h : step targets (w, s) .control = some (w', s')) :
    ControlMove targets w s w' s' := by
  simp only [step] at h
  cases hc : s.control with
  | idle => simp [controlStep, hc] at h
  | enWriters rest =>
    cases rest with
    | nil =>
      simp only [controlStep, hc, Option.some.injEq, Prod.mk.injEq] at h
      obtain ⟨rfl, rfl⟩ := h
      exact .enReader hc
    | cons p rest =>
      simp only [controlStep, hc, Option.some.injEq, Prod.mk.injEq] at h
      obtain ⟨rfl, rfl⟩ := h
      exact .enWriter p rest hc
  | disWriters rest =>
    cases rest with
    | nil =>
      simp only [controlStep, hc, Option.some.injEq, Prod.mk.injEq] at h
      obtain ⟨rfl, rfl⟩ := h
      exact .disDone hc
    | cons p rest =>
      simp only [controlStep, hc, Option.some.injEq, Prod.mk.injEq] at h
      obtain ⟨rfl, rfl⟩ := h
      exact .disWriter p rest hc
  | disWait =>
    simp only [controlStep, hc] at h
    split at h
    · cases h
    · rename_i hm
      simp only [Option.some.injEq, Prod.mk.injEq] at h
      obtain ⟨rfl, rfl⟩ := h
      exact .disWait hc (by simpa using hm)
  | enSet =>
    simp only [controlStep, hc, Option.some.injEq, Prod.mk.injEq] at h
    obtain ⟨rfl, rfl⟩ := h
    exact .enSet hc
  | enCallback pc =>
    simp only [controlStep, hc, Option.some.injEq, Prod.mk.injEq] at h
    obtain ⟨rfl, rfl⟩ := h
    exact .enCallback pc hc
  | disSet =>
    simp only [controlStep, hc, Option.some.injEq, Prod.mk.injEq] at h
    obtain ⟨rfl, rfl⟩ := h
    exact .disSet hc
  | disReader =>
    simp only [controlStep, hc, Option.some.injEq, Prod.mk.injEq] at h
    obtain ⟨rfl, rfl⟩ := h
    exact .disReader hc

theorem take_inv {found : Bool} {t : State} {x : Option TransmitPc}
    (h : transmitStep targets w s found .take = some (t, x)) :
    TransmitMove targets w s .take t x := by
  have ht := s.reader.take_takes found
  simp only [transmitStep] at h
  generalize s.reader.take found = res at h ht
  cases ht with
  | notEnabled he =>
    cases h
    exact .retry
  | noData he hh =>
    cases h
    exact .noData he hh
  | notFound he =>
    cases h
    exact .retry
  | discarded n c rest he hh =>
    cases h
    exact .discarded n c rest he hh
  | taken n c rest he hh hd =>
    cases h
    exact .taken n c rest he hh

theorem transmitStep_inv {found : Bool} {pc : TransmitPc} {t : State} {x : Option TransmitPc}
    (h : transmitStep targets w s found pc = some (t, x)) : TransmitMove targets w s pc t x := by
  cases pc with
  | take => exact take_inv h
  | lock =>
    simp only [transmitStep] at h
    split at h
    · cases h
    · rename_i hm
      cases h
      exact .lock (by simpa using hm)
  | loop =>
    cases h
    split
    · exact .stay (by assumption)
    · rename_i hl
      exact .leave (by simpa using hl)
  | store =>
    cases h
    exact .store
  | sub =>
    cases h
    split
    · rename_i hst
      have h0 : wrapSub s.status transmittingData = noMoreData := by rw [hst]; rfl
      rw [h0]
      exact .last hst
    · exact .again (by assumption)
  | write n data rest =>
    cases rest with
    | nil =>
      cases h
      exact .written n data
    | cons p rest =>
      cases h
      exact .write n data p rest
  | unlock =>
    cases h
    exact .unlock

theorem step_transmit_inv {i : Nat} {found : Bool}
    (h : step targets (w, s) (.transmit i found) = some (w', s')) :
    ∃ pc t x, s.running[i]? = some pc ∧ TransmitMove targets w s pc t x ∧ w' = w ∧
      s' = { t with running := advance s.running i x } := by
  simp only [step, Option.bind_eq_some_iff, Option.map_eq_some_iff, Prod.mk.injEq] at h
  obtain ⟨pc, hpc, ⟨t, x⟩, hr, rfl, rfl⟩ := h
  exact ⟨pc, t, x, hpc, transmitStep_inv hr, rfl, rfl⟩

end Inversion

/-! What one step of a callback can do to the parts that other threads read. -/

@[simp] theorem finish_some (s : State) (n : Nat) :
    s.finish (some n) = { s with log := { s.log with completed := n :: s.log.completed } } := rfl

@[simp] theorem finish_none (s : State) : s.finish none = s := rfl

/-- `finish` writes to the log only. -/
theorem finish_log (s : State) (n : Option Nat) : ∃ l, s.finish n = { s with log := l } := by
  cases n with
  | none => exact ⟨s.log, rfl⟩
  | some n => exact ⟨_, rfl⟩

/-- A callback leaves the flags, the other threads and the mutex alone. -/
theorem callbackStep_frame (s : State) (pc : CallbackPc) :
    ∃ st r q l, (callbackStep s pc).1 = { s with status := st, reader := r, queued := q, log := l } := by
  cases pc with
  | added n c => exact ⟨s.status, _, s.queued, s.log, rfl⟩
  | test n =>
    obtain ⟨l, hl⟩ := finish_log s n
    simp only [callbackStep]
    split
    · exact ⟨s.status, s.reader, s.queued, s.log, rfl⟩
    · exact ⟨s.status, s.reader, s.queued, l, hl⟩
  | add n =>
    simp only [callbackStep]
    split
    · exact ⟨_, s.reader, s.queued, _, rfl⟩
    · obtain ⟨l, hl⟩ := finish_log { s with
        status := wrap (s.status + newDataArrived)
        log := { s.log with adds := s.log.adds + 1 } } n
      exact ⟨_, s.reader, s.queued, l, hl⟩
  | emit n =>
    obtain ⟨l, hl⟩ := finish_log { s with queued := s.queued + 1 } n
    exact ⟨s.status, s.reader, _, l, hl⟩

/-- A report writes the completed reports and the number of additions only. -/
theorem callbackStep_log (s : State) (pc : CallbackPc) :
    ∃ done k, (callbackStep s pc).1.log = { s.log with completed := done, adds := k } := by
  cases pc with
  | added n c => exact ⟨s.log.completed, s.log.adds, rfl⟩
  | test n =>
    simp only [callbackStep]
    split
    · exact ⟨s.log.completed, s.log.adds, rfl⟩
    · cases n <;> exact ⟨_, s.log.adds, rfl⟩
  | add n =>
    simp only [callbackStep]
    split
    · exact ⟨s.log.completed, _, rfl⟩
    · cases n <;> exact ⟨_, _, rfl⟩
  | emit n => cases n <;> exact ⟨_, s.log.adds, rfl⟩

/-- Only the listener touches the history, and then its report is over. -/
theorem callbackStep_history (s : State) (pc : CallbackPc) :
    (callbackStep s pc).1.reader = s.reader ∨
      ∃ m c, pc = .added m c ∧ (callbackStep s pc).2 = none ∧
        (callbackStep s pc).1.reader = s.reader.remove m ∧
        (callbackStep s pc).1.log = s.log := by
  cases pc with
  | added m c =>
    simp only [callbackStep, Reader.onNewCacheChangeAdded]
    split
    · split
      · exact .inl rfl
      · split
        · exact .inr ⟨m, c, rfl, rfl, rfl, trivial⟩
        · exact .inl rfl
    · exact .inr ⟨m, c, rfl, rfl, rfl, trivial⟩
  | test n =>
    left
    simp only [callbackStep]
    split
    · rfl
    · cases n <;> rfl
  | add n =>
    left
    simp only [callbackStep]
    split
    · rfl
    · cases n <;> rfl
  | emit n =>
    left
    cases n <;> rfl

def ControlPc.report : ControlPc → List CallbackPc
  | .enCallback pc => [pc]
  | _ => []

/-- All calls of `data_available_` in progress, from the listener and from
`enable`. -/
def State.reports (s : State) : List CallbackPc := s.callbacks ++ s.control.report

/-- One of the reports in progress takes a step; who runs it does not matter. -/
inductive ReportMove (s : State) : State → Prop where
  | mk (j : Nat) (pc : CallbackPc) (cs : List CallbackPc) (c : ControlPc)
      (hj : s.reports[j]? = some pc)
      (hr : cs ++ c.report = advance s.reports j (callbackStep s pc).2)
      (hc : c = s.control ∨ s.control = .enCallback pc ∧ (c = .idle ∨ ∃ pc', c = .enCallback pc')) :
      ReportMove s { (callbackStep s pc).1 with callbacks := cs, control := c }

theorem callback_reportMove {targets : List ParticipantId} {w w' : Writers} {s s' : State} {i : Nat}
    (h : step targets (w, s) (.callback i) = some (w', s')) : w' = w ∧ ReportMove s s' := by
  obtain ⟨pc, hpc, rfl, rfl⟩ := step_callback_inv h
  obtain ⟨st, r, q, l, hf⟩ := callbackStep_frame s pc
  have hlt : i < s.callbacks.length := (List.getElem?_eq_some_iff.mp hpc).1
  have hj : s.reports[i]? = some pc := by
    rw [State.reports, List.getElem?_append_left hlt]
    exact hpc
  have hm := ReportMove.mk (s := s) i pc (advance s.callbacks i (callbackStep s pc).2) s.control hj
    (advance_append_left hlt _ _).symm (.inl rfl)
  refine ⟨rfl, ?_⟩
  rw [hf] at hm ⊢
  exact hm

theorem enCallback_reportMove {s : State} {pc : CallbackPc} (hc : s.control = .enCallback pc) :
    ReportMove s { (callbackStep s pc).1 with
      control := ((callbackStep s pc).2.map ControlPc.enCallback).getD .idle } := by
  obtain ⟨st, r, q, l, hf⟩ := callbackStep_frame s pc
  have hrep : s.reports = s.callbacks ++ [pc] := by simp [State.reports, hc, ControlPc.report]
  have hm := ReportMove.mk (s := s) s.callbacks.length pc s.callbacks
    (((callbackStep s pc).2.map ControlPc.enCallback).getD .idle) (by simp [hrep])
    (by rw [hrep, advance_append_singleton]; cases (callbackStep s pc).2 <;> rfl)
    (by
      right
      refine ⟨hc, ?_⟩
      cases (callbackStep s pc).2 with
      | none => exact .inl rfl
      | some pc' => exact .inr ⟨pc', rfl⟩)
  rw [hf] at hm ⊢
  exact hm

/-- What a step can be to the changes, the reports and the tasks. Outside its
report the control thread leaves all three alone. -/
inductive Move (targets : List ParticipantId) (w : Writers) (s : State) : State → Prop where
  | arrive (c : CacheChange) :
      Move targets w s { s with
        reader := s.reader.received s.log.arrivals c
        callbacks := s.callbacks ++ [.added s.log.arrivals c]
        log := { s.log with arrivals := s.log.arrivals + 1 } }
  | report {s' : State} (h : ReportMove s s') : Move targets w s s'
  | control (e : Bool) (r : Reader) (c : ControlPc) (hold : s.control.report = [])
      (hr : r.numbers = s.reader.numbers) (hnew : ∀ pc ∈ c.report, pc = .test none) :
      Move targets w s { s with enabled := e, reader := r, control := c }
  | start (hq : 0 < s.queued) :
      Move targets w s { s with queued := s.queued - 1, running := s.running ++ [.lock] }
  | transmit (i : Nat) (pc : TransmitPc) (t : State) (x : Option TransmitPc)
      (hpc : s.running[i]? = some pc) (hm : TransmitMove targets w s pc t x) :
      Move targets w s { t with running := advance s.running i x }

theorem step_move {targets : List ParticipantId} {w w' : Writers} {s s' : State} {a : Action}
    (hs : step targets (w, s) a = some (w', s')) : Move targets w s s' := by
  cases a with
  | arrive c =>
    cases hs
    exact .arrive c
  | callback i => exact .report (callback_reportMove hs).2
  | enable =>
    obtain ⟨hc, -, ⟨-, rfl⟩ | ⟨-, rfl⟩⟩ := step_enable_inv hs
    · exact .control s'.enabled s'.reader s'.control (by rw [hc]; rfl) rfl (by simp [hc, ControlPc.report])
    · exact .control _ _ _ (by rw [hc]; rfl) rfl (by simp [ControlPc.report])
  | disable =>
    obtain ⟨hc, -, ⟨-, rfl⟩ | ⟨-, rfl⟩⟩ := step_disable_inv hs
    · exact .control s'.enabled s'.reader s'.control (by rw [hc]; rfl) rfl (by simp [hc, ControlPc.report])
    · exact .control _ _ _ (by rw [hc]; rfl) rfl (by simp [ControlPc.report])
  | control =>
    cases step_control_inv hs with
    | enCallback pc hc => exact .report (enCallback_reportMove hc)
    | enReader hc =>
      refine .control _ _ _ (by rw [hc]; rfl) (Reader.numbers_enable _) fun pc hpc => ?_
      split at hpc
      · simpa [ControlPc.report] using hpc
      · simp [ControlPc.report] at hpc
    | disReader hc =>
      exact .control _ _ _ (by rw [hc]; rfl) (Reader.numbers_disable _) (by simp [ControlPc.report])
    | enSet hc => exact .control _ _ _ (by rw [hc]; rfl) rfl (by simp [ControlPc.report])
    | enWriter p rest hc => exact .control _ _ _ (by rw [hc]; rfl) rfl (by simp [ControlPc.report])
    | disSet hc => exact .control _ _ _ (by rw [hc]; rfl) rfl (by simp [ControlPc.report])
    | disWait hc hm => exact .control _ _ _ (by rw [hc]; rfl) rfl (by simp [ControlPc.report])
    | disWriter p rest hc => exact .control _ _ _ (by rw [hc]; rfl) rfl (by simp [ControlPc.report])
    | disDone hc => exact .control _ _ _ (by rw [hc]; rfl) rfl (by simp [ControlPc.report])
  | start =>
    obtain ⟨hq, -, rfl⟩ := step_start_inv hs
    exact .start hq
  | transmit i found =>
    obtain ⟨pc, t, x, hpc, hm, -, rfl⟩ := step_transmit_inv hs
    exact .transmit i pc t x hpc hm

end DDSRouter.Track
