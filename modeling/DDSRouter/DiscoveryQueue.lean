import DDSRouter.Discovery
import DDSRouter.Lib.Runs
import Mathlib.Logic.Function.Basic

/-!
# The queue of the discovery database

Any thread pushes operations into the background of a `DBQueue`. One thread
swaps the queue and works off the foreground. For every operation it changes
the map under one mutex and calls the callbacks under another, and the
operation stays at the front until both are done.
-/
namespace DDSRouter

/-- `fastrtps::DBQueue`, which two threads share. -/
structure DBQueue (α : Type) where
  background : List α := []
  foreground : List α := []
  deriving DecidableEq, Repr

namespace DBQueue

variable {α : Type}

def push (q : DBQueue α) (x : α) : DBQueue α := { q with background := q.background ++ [x] }

def swap (q : DBQueue α) : DBQueue α := { background := q.foreground, foreground := q.background }

def pop (q : DBQueue α) : DBQueue α := { q with foreground := q.foreground.tail }

def bothEmpty (q : DBQueue α) : Bool := q.background.isEmpty && q.foreground.isEmpty

theorem bothEmpty_iff {q : DBQueue α} : q.bothEmpty = true ↔ q.background = [] ∧ q.foreground = [] := by
  simp [bothEmpty]

end DBQueue

/-- The three vectors of callbacks. -/
inductive CallbackKind where
  | added | updated | erased
  deriving DecidableEq, Repr

def DiscoveryEvent.kind : DiscoveryEvent → CallbackKind
  | .discovered _ => .added
  | .updated _ => .updated
  | .erased _ => .erased

namespace DiscoveryQueue

/-- Where the processing thread is. -/
inductive Point where
  /-- There is no thread, or it has left its loop. -/
  | stopped
  | waiting
  | swapping
  /-- At the head of the loop of `process_queue_`. -/
  | testing
  | processing (op : DatabaseOperation)
  /-- The map is changed, the mutex of the callbacks is not yet held. -/
  | notifying (event : DiscoveryEvent)
  /-- In the loop over the callbacks, with the index of the next one. -/
  | calling (event : DiscoveryEvent) (next : Nat)
  | popping
  deriving DecidableEq, Repr

/-- A database with its queue and its thread. `fired` lists the calls of callbacks. -/
structure State (κ : Type) where
  database : DiscoveryDatabase := {}
  queue : DBQueue DatabaseOperation := {}
  point : Point := .stopped
  enabled : Bool := false
  exit : Bool := false
  callbacks : CallbackKind → List κ := fun _ => []
  fired : List (κ × DiscoveryEvent) := []

inductive Action (κ : Type) where
  | push (op : DatabaseOperation)
  | addCallback (kind : CallbackKind) (callback : κ)
  | clearAllCallbacks
  | start
  | signalExit
  | thread
  deriving DecidableEq, Repr

variable {κ : Type}

/-- `add_endpoint`, `update_endpoint` and `erase_endpoint`. -/
def pushItemToQueue (s : State κ) (op : DatabaseOperation) : State κ := { s with queue := s.queue.push op }

/-- The thread holds the mutex of the callbacks. -/
def Point.locksCallbacks : Point → Bool
  | .calling _ _ => true
  | _ => false

/-- `add_endpoint_discovered_callback` and its two siblings. -/
def addCallback (s : State κ) (kind : CallbackKind) (c : κ) : Option (State κ) :=
  if s.point.locksCallbacks then none
  else some { s with callbacks := Function.update s.callbacks kind (s.callbacks kind ++ [c]) }

def clearAllCallbacks (s : State κ) : Option (State κ) :=
  if s.point.locksCallbacks then none else some { s with callbacks := fun _ => [] }

/-- A thread is created where the last one has been joined. -/
def start (s : State κ) : Option (State κ) :=
  if s.enabled then some s
  else if s.point = .stopped then some { s with point := .waiting, enabled := true } else none

/-- What `stop` does after it has cleared the callbacks. -/
def signalExit (s : State κ) : Option (State κ) :=
  if s.enabled then some { s with exit := true, enabled := false } else none

/-- One step of `queue_processing_thread_routine_`, with `process_queue_` and the
operations of the database in it. -/
def threadStep (s : State κ) : Option (State κ) :=
  match s.point with
  | .stopped => none
  | .waiting =>
    if s.exit then some { s with point := .stopped }
    else if s.queue.bothEmpty then none else some { s with point := .swapping }
  | .swapping => some { s with queue := s.queue.swap, point := .testing }
  | .testing =>
    match s.queue.foreground with
    | [] => some { s with point := .waiting }
    | op :: _ => some { s with point := .processing op }
  | .processing op =>
    -- An exception is caught here, and the operation is popped as any other.
    match s.database.process op with
    | (db, some event) => some { s with database := db, point := .notifying event }
    | (db, none) => some { s with database := db, point := .popping }
  | .notifying event => some { s with point := .calling event 0 }
  | .calling event next =>
    match (s.callbacks event.kind)[next]? with
    | some c => some { s with fired := s.fired ++ [(c, event)], point := .calling event (next + 1) }
    | none => some { s with point := .popping }
  | .popping => some { s with queue := s.queue.pop, point := .testing }

def step (s : State κ) : Action κ → Option (State κ)
  | .push op => some (pushItemToQueue s op)
  | .addCallback kind c => addCallback s kind c
  | .clearAllCallbacks => clearAllCallbacks s
  | .start => start s
  | .signalExit => signalExit s
  | .thread => threadStep s

/-- Nothing is queued and the thread is outside `process_queue_`. -/
def Idle (s : State κ) : Prop := s.queue.bothEmpty = true ∧ (s.point = .stopped ∨ s.point = .waiting)

/-- The operations of a run, in the order of their pushes. -/
def pushes (as : List (Action κ)) : List DatabaseOperation :=
  as.filterMap fun
    | .push op => some op
    | _ => none

/-! ### One operation after the other -/

/-- The database after a list of operations. -/
def processAll (db : DiscoveryDatabase) (ops : List DatabaseOperation) : DiscoveryDatabase :=
  ops.foldl (fun db op => (db.process op).1) db

/-- What a list of operations reports. -/
def events : DiscoveryDatabase → List DatabaseOperation → List DiscoveryEvent
  | _, [] => []
  | db, op :: ops => (db.process op).2.toList ++ events (db.process op).1 ops

theorem processAll_concat (db : DiscoveryDatabase) (ops : List DatabaseOperation) (op : DatabaseOperation) :
    processAll db (ops ++ [op]) = ((processAll db ops).process op).1 := by
  simp [processAll]

theorem events_concat (db : DiscoveryDatabase) (ops : List DatabaseOperation) (op : DatabaseOperation) :
    events db (ops ++ [op]) = events db ops ++ ((processAll db ops).process op).2.toList := by
  induction ops generalizing db with
  | nil => simp [events, processAll]
  | cons o ops ih =>
    rw [List.cons_append, events, events, ih, List.append_assoc]
    rfl

/-! ### The order of processing -/

/-- The operations of the foreground that have not changed the map. -/
def Point.pending (foreground : List DatabaseOperation) : Point → List DatabaseOperation
  | .notifying _ | .calling _ _ | .popping => foreground.tail
  | _ => foreground

/-- The event whose callbacks have not all been called. -/
def Point.unfinished : Point → List DiscoveryEvent
  | .notifying event | .calling event _ => [event]
  | _ => []

/-- The calls for one event. -/
def calls (event : DiscoveryEvent) (callbacks : List κ) : List (κ × DiscoveryEvent) :=
  callbacks.map fun c => (c, event)

/-- The calls already made for the event that the thread is at. -/
def Point.made (callbacks : CallbackKind → List κ) : Point → List (κ × DiscoveryEvent)
  | .calling event next => calls event ((callbacks event.kind).take next)
  | _ => []

/-- What the thread has found at the front. -/
def Point.Front (foreground : List DatabaseOperation) : Point → Prop
  | .stopped | .waiting | .swapping => foreground = []
  | .testing => True
  | .processing op => foreground.head? = some op
  | .notifying _ | .calling _ _ | .popping => foreground ≠ []

/-- The operations `done` have changed the map, and the calls are those for the
events in `log`, each with the callbacks that were found. -/
structure Inv (s₀ : State κ) (past : List (Action κ)) (s : State κ) (done : List DatabaseOperation)
    (log : List (DiscoveryEvent × List κ)) : Prop where
  order : pushes past = done ++ s.point.pending s.queue.foreground ++ s.queue.background
  database : s.database = processAll s₀.database done
  events : events s₀.database done = log.map Prod.fst ++ s.point.unfinished
  fired : s.fired = s₀.fired ++ log.flatMap (fun b => calls b.1 b.2) ++ s.point.made s.callbacks
  front : s.point.Front s.queue.foreground
  kept : .clearAllCallbacks ∉ past → ∀ k, s₀.callbacks k <+: s.callbacks k
  between : .clearAllCallbacks ∉ past → ∀ b ∈ log, s₀.callbacks b.1.kind <+: b.2 ∧ b.2 <+: s.callbacks b.1.kind

section Steps

variable {s₀ s s' : State κ} {past : List (Action κ)} {done : List DatabaseOperation}
  {log : List (DiscoveryEvent × List κ)}

theorem pushes_concat (past : List (Action κ)) (a : Action κ) :
    pushes (past ++ [a]) = pushes past ++ match a with
      | .push op => [op]
      | _ => [] := by
  cases a <;> simp [pushes]

theorem not_mem_past {a : Action κ} (h : .clearAllCallbacks ∉ past ++ [a]) : .clearAllCallbacks ∉ past :=
  fun hm => h (List.mem_append_left _ hm)

theorem inv_init (h : Idle s₀) : Inv s₀ [] s₀ [] [] := by
  obtain ⟨hq, hp⟩ := h
  obtain ⟨hb, hf⟩ := DBQueue.bothEmpty_iff.mp hq
  rcases hp with hp | hp
  · constructor <;>
      simp [pushes, processAll, DiscoveryQueue.events, Point.pending, Point.made, Point.Front, Point.unfinished, hp, hb, hf]
  · constructor <;>
      simp [pushes, processAll, DiscoveryQueue.events, Point.pending, Point.made, Point.Front, Point.unfinished, hp, hb, hf]

theorem inv_push (h : Inv s₀ past s done log) (op : DatabaseOperation) :
    Inv s₀ (past ++ [.push op]) (pushItemToQueue s op) done log where
  order := by
    rw [pushes_concat, h.order]
    simp [pushItemToQueue, DBQueue.push]
  database := h.database
  events := h.events
  fired := h.fired
  front := h.front
  kept hc := h.kept (not_mem_past hc)
  between hc := h.between (not_mem_past hc)

theorem inv_addCallback (h : Inv s₀ past s done log) {kind : CallbackKind} {c : κ}
    (hs : addCallback s kind c = some s') : Inv s₀ (past ++ [.addCallback kind c]) s' done log := by
  unfold addCallback at hs
  split at hs
  · cases hs
  · rename_i hl
    cases hs
    have hgrow : ∀ k, s.callbacks k <+: Function.update s.callbacks kind (s.callbacks kind ++ [c]) k := by
      intro k
      by_cases hk : k = kind
      · subst hk
        simp
      · simp [hk]
    refine ⟨?_, h.database, h.events, ?_, h.front, ?_, ?_⟩
    · rw [pushes_concat, h.order, List.append_nil]
    · rw [h.fired]
      cases hp : s.point <;> simp_all [Point.made, Point.locksCallbacks]
    · intro hc k
      exact (h.kept (not_mem_past hc) k).trans (hgrow k)
    · intro hc b hb
      obtain ⟨hlo, hhi⟩ := h.between (not_mem_past hc) b hb
      exact ⟨hlo, hhi.trans (hgrow _)⟩

theorem inv_clearAllCallbacks (h : Inv s₀ past s done log) (hs : clearAllCallbacks s = some s') :
    Inv s₀ (past ++ [.clearAllCallbacks]) s' done log := by
  unfold clearAllCallbacks at hs
  split at hs
  · cases hs
  · rename_i hl
    cases hs
    refine ⟨?_, h.database, h.events, ?_, h.front, ?_, ?_⟩
    · rw [pushes_concat, h.order, List.append_nil]
    · rw [h.fired]
      cases hp : s.point <;> simp_all [Point.made, Point.locksCallbacks]
    · intro hc
      simp at hc
    · intro hc
      simp at hc

/-- A step that changes the map, the queue and the point alone. -/
theorem inv_thread (h : Inv s₀ past s done log) {a : Action κ} {ops : List DatabaseOperation}
    {db : DiscoveryDatabase} {q : DBQueue DatabaseOperation} {p : Point} {enabled exit : Bool}
    (ha : pushes (past ++ [a]) = pushes past)
    (horder : done ++ s.point.pending s.queue.foreground ++ s.queue.background =
      ops ++ p.pending q.foreground ++ q.background)
    (hdb : db = processAll s₀.database ops)
    (hev : DiscoveryQueue.events s₀.database ops = log.map Prod.fst ++ p.unfinished)
    (hmade : p.made s.callbacks = s.point.made s.callbacks)
    (hfront : p.Front q.foreground) :
    Inv s₀ (past ++ [a]) { s with database := db, queue := q, point := p, enabled := enabled, exit := exit } ops log where
  order := by rw [ha, h.order, horder]
  database := hdb
  events := hev
  fired := by rw [h.fired, hmade]
  front := hfront
  kept hc := h.kept (not_mem_past hc)
  between hc := h.between (not_mem_past hc)

/-- The last callback has been called: the event and its callbacks are complete. -/
theorem inv_called (h : Inv s₀ past s done log) {event : DiscoveryEvent} {next : Nat}
    (hp : s.point = .calling event next) (hn : (s.callbacks event.kind)[next]? = none) :
    Inv s₀ (past ++ [.thread]) { s with point := .popping } done (log ++ [(event, s.callbacks event.kind)]) := by
  have hall : (s.callbacks event.kind).take next = s.callbacks event.kind :=
    List.take_of_length_le (List.getElem?_eq_none_iff.mp hn)
  refine ⟨?_, h.database, ?_, ?_, ?_, ?_, ?_⟩
  · rw [pushes_concat, h.order, hp, List.append_nil]
    rfl
  · rw [h.events, hp]
    simp [Point.unfinished]
  · rw [h.fired, hp]
    simp [Point.made, hall]
  · have hf := h.front
    rw [hp] at hf
    exact hf
  · exact fun hc => h.kept (not_mem_past hc)
  · intro hc b hb
    rcases List.mem_append.mp hb with hb | hb
    · exact h.between (not_mem_past hc) b hb
    · rw [List.mem_singleton] at hb
      subst hb
      exact ⟨h.kept (not_mem_past hc) _, List.prefix_rfl⟩

theorem inv_call (h : Inv s₀ past s done log) {event : DiscoveryEvent} {next : Nat} {c : κ}
    (hp : s.point = .calling event next) (hc : (s.callbacks event.kind)[next]? = some c) :
    Inv s₀ (past ++ [.thread]) { s with fired := s.fired ++ [(c, event)], point := .calling event (next + 1) } done log := by
  have htake : (s.callbacks event.kind).take (next + 1) = (s.callbacks event.kind).take next ++ [c] := by
    rw [List.take_add_one, hc, Option.toList_some]
  refine ⟨?_, h.database, ?_, ?_, ?_, ?_, ?_⟩
  · rw [pushes_concat, h.order, hp, List.append_nil]
    rfl
  · rw [h.events, hp]
    rfl
  · rw [h.fired, hp]
    simp [Point.made, calls, htake]
  · have hf := h.front
    rw [hp] at hf
    exact hf
  · exact fun hc => h.kept (not_mem_past hc)
  · exact fun hc => h.between (not_mem_past hc)

/-- The operation at the front has been processed, and its event, if there is one, is
what the thread goes on with. -/
theorem inv_processed (h : Inv s₀ past s done log) {op : DatabaseOperation} (hp : s.point = .processing op) (p : Point)
    (hpend : p.pending s.queue.foreground = s.queue.foreground.tail)
    (hnext : p.unfinished = (s.database.process op).2.toList) (hmade : p.made s.callbacks = s.point.made s.callbacks)
    (hfront : ∀ rest, s.queue.foreground = op :: rest → p.Front s.queue.foreground) :
    Inv s₀ (past ++ [.thread]) { s with database := (s.database.process op).1, point := p } (done ++ [op]) log := by
  have hpast : pushes (past ++ [.thread]) = pushes past := by rw [pushes_concat, List.append_nil]
  have hhead := h.front
  have hevents := h.events
  rw [hp] at hhead hevents
  obtain ⟨rest, hf⟩ := List.head?_eq_some_iff.mp hhead
  apply inv_thread h hpast
  · rw [hpend]
    simp [hp, Point.pending, hf]
  · rw [processAll_concat, ← h.database]
  · rw [events_concat, hevents, ← h.database, hnext]
    simp [Point.unfinished]
  · exact hmade
  · exact hfront rest hf

/-- One step of the thread, by the point that it is at. -/
theorem inv_threadStep (h : Inv s₀ past s done log) (hs : threadStep s = some s') :
    ∃ done log, Inv s₀ (past ++ [.thread]) s' done log := by
  have hpast : pushes (past ++ [.thread]) = pushes past := by rw [pushes_concat, List.append_nil]
  have hfront := h.front
  have hevents := h.events
  unfold threadStep at hs
  cases hp : s.point with
  | stopped => simp [hp] at hs
  | waiting =>
    rw [hp] at hfront hevents
    simp only [hp] at hs
    split at hs
    · cases hs
      exact ⟨done, log, inv_thread h hpast (by rw [hp]; rfl) h.database hevents (by rw [hp]; rfl) hfront⟩
    · split at hs
      · cases hs
      · cases hs
        exact ⟨done, log, inv_thread h hpast (by rw [hp]; rfl) h.database hevents (by rw [hp]; rfl) hfront⟩
  | swapping =>
    rw [hp] at hfront hevents
    simp only [hp, Option.some.injEq] at hs
    subst hs
    -- The foreground is empty here, so that the order of the operations stays.
    have hempty : s.queue.foreground = [] := hfront
    have horder : done ++ s.point.pending s.queue.foreground ++ s.queue.background =
        done ++ Point.testing.pending s.queue.swap.foreground ++ s.queue.swap.background := by
      simp [hp, Point.pending, DBQueue.swap, hempty]
    exact ⟨done, log, inv_thread h hpast horder h.database hevents (by rw [hp]; rfl) trivial⟩
  | testing =>
    rw [hp] at hevents
    simp only [hp] at hs
    split at hs
    · rename_i hf
      cases hs
      exact ⟨done, log, inv_thread h hpast (by rw [hp]; rfl) h.database hevents (by rw [hp]; rfl) hf⟩
    · rename_i op rest hf
      cases hs
      exact ⟨done, log, inv_thread h hpast (by rw [hp]; rfl) h.database hevents (by rw [hp]; rfl) (by simp [Point.Front, hf])⟩
  | processing op =>
    simp only [hp] at hs
    split at hs
    · rename_i db event hop
      cases hs
      have hnew := inv_processed h hp (.notifying event) rfl (by rw [hop]; rfl) (by rw [hp]; rfl)
        fun rest hf => by simp [Point.Front, hf]
      rw [hop] at hnew
      exact ⟨done ++ [op], log, hnew⟩
    · rename_i db hop
      cases hs
      have hnew := inv_processed h hp .popping rfl (by rw [hop]; rfl) (by rw [hp]; rfl)
        fun rest hf => by simp [Point.Front, hf]
      rw [hop] at hnew
      exact ⟨done ++ [op], log, hnew⟩
  | notifying event =>
    rw [hp] at hfront hevents
    simp only [hp, Option.some.injEq] at hs
    subst hs
    exact ⟨done, log, inv_thread h hpast (by rw [hp]; rfl) h.database hevents (by rw [hp]; rfl) hfront⟩
  | calling event next =>
    simp only [hp] at hs
    split at hs
    · rename_i c hc
      cases hs
      exact ⟨done, log, inv_call h hp hc⟩
    · rename_i hn
      cases hs
      exact ⟨done, _, inv_called h hp hn⟩
  | popping =>
    rw [hp] at hevents
    simp only [hp, Option.some.injEq] at hs
    subst hs
    exact ⟨done, log, inv_thread h hpast (by rw [hp]; rfl) h.database hevents (by rw [hp]; rfl) trivial⟩

theorem inv_start (h : Inv s₀ past s done log) (hs : start s = some s') :
    Inv s₀ (past ++ [.start]) s' done log := by
  have hpast : pushes (past ++ [.start]) = pushes past := by rw [pushes_concat, List.append_nil]
  have hfront := h.front
  have hevents := h.events
  unfold start at hs
  split at hs
  · cases hs
    exact inv_thread h hpast rfl h.database hevents rfl hfront
  · split at hs
    · rename_i hp
      cases hs
      rw [hp] at hfront hevents
      exact inv_thread h hpast (by rw [hp]; rfl) h.database hevents (by rw [hp]; rfl) hfront
    · cases hs

theorem inv_signalExit (h : Inv s₀ past s done log) (hs : signalExit s = some s') :
    Inv s₀ (past ++ [.signalExit]) s' done log := by
  have hpast : pushes (past ++ [.signalExit]) = pushes past := by rw [pushes_concat, List.append_nil]
  unfold signalExit at hs
  split at hs
  · cases hs
    exact inv_thread h hpast rfl h.database h.events rfl h.front
  · cases hs

theorem inv_step {a : Action κ} (h : Inv s₀ past s done log) (hs : step s a = some s') :
    ∃ done log, Inv s₀ (past ++ [a]) s' done log := by
  cases a with
  | push op =>
    cases hs
    exact ⟨done, log, inv_push h op⟩
  | addCallback kind c => exact ⟨done, log, inv_addCallback h hs⟩
  | clearAllCallbacks => exact ⟨done, log, inv_clearAllCallbacks h hs⟩
  | start => exact ⟨done, log, inv_start h hs⟩
  | signalExit => exact ⟨done, log, inv_signalExit h hs⟩
  | thread => exact inv_threadStep h hs

theorem inv_run {as : List (Action κ)} (h₀ : Idle s₀) (hr : Runs.run step s₀ as = some s) :
    ∃ done log, Inv s₀ as s done log :=
  Runs.run_history (J := fun past s => ∃ done log, Inv s₀ past s done log)
    (fun _ _ _ _ ⟨_, _, h⟩ hs => inv_step h hs) ⟨[], [], inv_init h₀⟩ hr

end Steps

/-- The operation throws an `InconsistencyException`. -/
def Throws (db : DiscoveryDatabase) : DatabaseOperation → Prop
  | .add e => ∃ old, db.entities.find e.guid = some old ∧ old.active = true
  | .update e | .erase e => db.entities.contains e.guid = false

theorem process_of_throws {db : DiscoveryDatabase} {op : DatabaseOperation} (h : Throws db op) :
    db.process op = (db, none) := by
  cases op with
  | add e =>
    obtain ⟨old, hf, ha⟩ := h
    simp [DiscoveryDatabase.process, DiscoveryDatabase.addEndpoint, hf, ha]
  | update e =>
    have hf : db.entities.find e.guid = none := by simpa [Throws, OrdMap.contains] using h
    simp [DiscoveryDatabase.process, DiscoveryDatabase.updateEndpoint, hf]
  | erase e =>
    have hf : db.entities.contains e.guid = false := h
    simp [DiscoveryDatabase.process, DiscoveryDatabase.eraseEndpoint, hf]

/-- What an operation of the queue stores and reports, by the entry that it finds under
the guid. An assignment leaves the specific QoS of the entry as it was. -/
inductive Processed (db : DiscoveryDatabase) : DatabaseOperation → DiscoveryDatabase → Option DiscoveryEvent → Prop where
  | inserted (e : Endpoint) (hn : db.entities.find e.guid = none) :
      Processed db (.add e) ⟨db.entities.set e.guid e⟩ (some (.discovered e))
  | revived (e old : Endpoint) (hf : db.entities.find e.guid = some old) (ha : old.active = false) :
      Processed db (.add e) ⟨db.entities.set e.guid (old.assign e)⟩ none
  | updated (e old : Endpoint) (hf : db.entities.find e.guid = some old) :
      Processed db (.update e) ⟨db.entities.set e.guid (old.assign e)⟩ (some (.updated e))
  | erased (e : Endpoint) (hc : db.entities.contains e.guid = true) :
      Processed db (.erase e) ⟨db.entities.erase e.guid⟩ (some (.erased e))
  | refused (op : DatabaseOperation) (h : Throws db op) : Processed db op db none

theorem processed (db : DiscoveryDatabase) (op : DatabaseOperation) :
    Processed db op (db.process op).1 (db.process op).2 := by
  by_cases ht : Throws db op
  · rw [process_of_throws ht]
    exact .refused op ht
  · cases op with
    | add e =>
      cases hf : db.entities.find e.guid with
      | none =>
        simp only [DiscoveryDatabase.process, DiscoveryDatabase.addEndpoint, hf, Option.getD_some]
        exact .inserted e hf
      | some old =>
        have ha : old.active = false := by
          by_contra ha
          exact ht ⟨old, hf, by simpa using ha⟩
        simp only [DiscoveryDatabase.process, DiscoveryDatabase.addEndpoint, hf, ha, Bool.false_eq_true, if_false,
          Option.getD_some]
        exact .revived e old hf ha
    | update e =>
      cases hf : db.entities.find e.guid with
      | none => exact absurd (by simp [Throws, OrdMap.contains, hf]) ht
      | some old =>
        simp only [DiscoveryDatabase.process, DiscoveryDatabase.updateEndpoint, hf, Option.getD_some]
        exact .updated e old hf
    | erase e =>
      have hc : db.entities.contains e.guid = true := by
        by_contra hc
        exact ht (by simpa [Throws] using hc)
      simp only [DiscoveryDatabase.process, DiscoveryDatabase.eraseEndpoint, hc, if_true, Option.getD_some]
      exact .erased e hc

/-- The participants and the thread do not touch the vectors of callbacks. -/
def Action.leavesCallbacks : Action κ → Bool
  | .addCallback _ _ | .clearAllCallbacks => false
  | _ => true

theorem threadStep_callbacks {s s' : State κ} (hs : threadStep s = some s') : s'.callbacks = s.callbacks := by
  unfold threadStep at hs
  repeat' split at hs
  all_goals
    cases hs
    try rfl

theorem step_callbacks {s s' : State κ} {a : Action κ} (ha : a.leavesCallbacks = true)
    (hs : step s a = some s') : s'.callbacks = s.callbacks := by
  cases a with
  | push op =>
    cases hs
    rfl
  | addCallback kind c => cases ha
  | clearAllCallbacks => cases ha
  | start =>
    simp only [step, start] at hs
    split at hs
    · cases hs
      rfl
    · split at hs
      · cases hs
        rfl
      · cases hs
  | signalExit =>
    simp only [step, signalExit] at hs
    split at hs
    · cases hs
      rfl
    · cases hs
  | thread => exact threadStep_callbacks hs

theorem run_callbacks {s₀ s : State κ} {as : List (Action κ)} (ha : ∀ a ∈ as, a.leavesCallbacks = true)
    (hr : Runs.run step s₀ as = some s) : s.callbacks = s₀.callbacks := by
  induction as generalizing s₀ with
  | nil =>
    cases hr
    rfl
  | cons a as ih =>
    obtain ⟨s', hs, hr⟩ := Runs.run_cons_some.mp hr
    rw [List.forall_mem_cons] at ha
    rw [ih ha.2 hr, step_callbacks ha.1 hs]

/-- What a drained queue leaves, with the callbacks that every event found: those
that were there from the beginning, and perhaps some that were added since. -/
theorem drained_log {s₀ s : State κ} {as : List (Action κ)} (h₀ : Idle s₀)
    (hr : Runs.run step s₀ as = some s) (hd : s.queue.bothEmpty = true) :
    s.database = processAll s₀.database (pushes as) ∧
    ∃ log : List (DiscoveryEvent × List κ),
      log.map Prod.fst = events s₀.database (pushes as) ∧
      s.fired = s₀.fired ++ log.flatMap (fun b => calls b.1 b.2) ∧
      (.clearAllCallbacks ∉ as →
        ∀ b ∈ log, s₀.callbacks b.1.kind <+: b.2 ∧ b.2 <+: s.callbacks b.1.kind) := by
  obtain ⟨done, log, h⟩ := inv_run h₀ hr
  obtain ⟨hb, hf⟩ := DBQueue.bothEmpty_iff.mp hd
  have hfront := h.front
  rw [hf] at hfront
  have hpush : pushes as = done := by
    rw [h.order, hb, hf]
    cases s.point <;> simp [Point.pending]
  have hunf : s.point.unfinished = [] := by
    cases hp : s.point <;> simp_all [Point.Front, Point.unfinished]
  have hmade : s.point.made s.callbacks = [] := by
    cases hp : s.point <;> simp_all [Point.Front, Point.made]
  refine ⟨hpush ▸ h.database, log, ?_, ?_, h.between⟩
  · rw [hpush, h.events, hunf, List.append_nil]
  · rw [h.fired, hmade, List.append_nil]

/-- Whenever the queue is drained, the map is the one that the operations give one
after the other, each storing and reporting what `Processed` says and one that throws
nothing, and the callbacks of every event have been called once, in the same order. -/
theorem drained_in_order {s₀ s : State κ} {as : List (Action κ)} (h₀ : Idle s₀)
    (hr : Runs.run step s₀ as = some s) (hd : s.queue.bothEmpty = true) :
    s.database = processAll s₀.database (pushes as) ∧
    (∀ db op, Processed db op (db.process op).1 (db.process op).2) ∧
    (∀ db op, Throws db op → db.process op = (db, none)) ∧
    ((∀ a ∈ as, a.leavesCallbacks = true) →
      s.fired = s₀.fired ++ (events s₀.database (pushes as)).flatMap fun event =>
        calls event (s₀.callbacks event.kind)) ∧
    ∃ log : List (DiscoveryEvent × List κ),
      log.map Prod.fst = events s₀.database (pushes as) ∧
      s.fired = s₀.fired ++ log.flatMap (fun b => calls b.1 b.2) ∧
      (.clearAllCallbacks ∉ as →
        ∀ b ∈ log, s₀.callbacks b.1.kind <+: b.2 ∧ b.2 <+: s.callbacks b.1.kind) := by
  obtain ⟨hdb, log, hlog, hfired, hbetween⟩ := drained_log h₀ hr hd
  refine ⟨hdb, processed, fun db op => process_of_throws, ?_, log, hlog, hfired, hbetween⟩
  intro ha
  have hclear : .clearAllCallbacks ∉ as := fun hm => by simpa [Action.leavesCallbacks] using ha _ hm
  have hcallbacks := run_callbacks ha hr
  rw [hfired, ← hlog, List.flatMap_map]
  congr 1
  refine List.flatMap_congr fun b hb => ?_
  obtain ⟨hlo, hhi⟩ := hbetween hclear b hb
  rw [hcallbacks] at hhi
  rw [hlo.eq_of_length_le hhi.length_le]

/-! A reader is added twice, with the second addition pushed while the first is being
processed. It is updated to an inactive one, and added again, of which no callback is
told. -/

def listener : Endpoint where
  kind := .reader
  guid := ⟨1, 7⟩
  topic := { topicName := "chatter", typeName := "String" }
  discovererParticipantId := ⟨"a"⟩

def inactive : Endpoint := { listener with active := false }

def twoCallbacks : State Nat where
  point := .waiting
  enabled := true
  callbacks _ := [0, 1]

def overlapping : List (Action Nat) :=
  List.flatten [[.push (.add listener)], List.replicate 4 .thread, [.push (.add listener)], List.replicate 9 .thread,
    [.push (.update inactive), .push (.add listener)], List.replicate 16 .thread]

theorem drained_in_order_overlapping :
    Idle twoCallbacks ∧
    ∃ s, Runs.run step twoCallbacks overlapping = some s ∧ s.queue.bothEmpty = true ∧
      s.database.entities.find listener.guid = some listener ∧
      s.fired = [(0, .discovered listener), (1, .discovered listener), (0, .updated inactive), (1, .updated inactive)] := by
  have h₀ : Idle twoCallbacks := ⟨rfl, .inr rfl⟩
  have hcheck : (Runs.run step twoCallbacks overlapping).map (fun s => s.queue.bothEmpty) = some true := by
    decide +kernel
  obtain ⟨s, hr, hd⟩ := Option.map_eq_some_iff.mp hcheck
  obtain ⟨hdb, -, -, hfired, -⟩ := drained_in_order h₀ hr hd
  refine ⟨h₀, s, hr, hd, hdb ▸ ?_, ?_⟩
  · decide
  · rw [hfired (by decide)]
    decide

end DiscoveryQueue

end DDSRouter
