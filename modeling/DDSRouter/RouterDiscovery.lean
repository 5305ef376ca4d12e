import DDSRouter.DiscoveryQueue
import DDSRouter.FirstTopics
import DDSRouter.ParticipantDiscovery

/-!
# Discovery and the router

Listener threads of the participants push what they discover into the queue of the
discovery database. Its thread works the queue off and calls back the router. The
user starts, stops and reloads the router at the same time. All of them take their
steps in any order.
-/
namespace DDSRouter

/-- The endpoint that the callbacks of an event are called with. -/
def DiscoveryEvent.endpoint : DiscoveryEvent → Endpoint
  | .discovered e | .updated e | .erased e => e

namespace RouterDiscovery

open Runs WeakOrder

/-- The callbacks of the router, and the one of an echo participant, which prints. -/
inductive Callback where
  | discoveredEndpoint
  | removedEndpoint
  | echoDiscovery (id : ParticipantId)
  deriving DecidableEq, Repr

structure State where
  discovery : DiscoveryQueue.State Callback
  router : Router.State

/-- One call of a listener. -/
structure Report where
  participant : CommonParticipant
  isReader : Bool
  info : EndpointInfo
  status : DiscoveryStatus
  depth : Nat
  deriving DecidableEq, Repr

def Report.operation (r : Report) : Option DatabaseOperation :=
  if r.isReader then r.participant.onReaderDiscovery r.depth r.info r.status
  else r.participant.onWriterDiscovery r.depth r.info r.status

/-- The endpoint that the listener makes of what it is told. -/
def Report.endpoint (r : Report) : Endpoint :=
  if r.isReader then r.participant.createReaderFromInfo r.depth r.info
  else r.participant.createWriterFromInfo r.depth r.info

/-- The endpoint is another participant's. -/
def Report.isRemote (r : Report) : Bool := r.info.guid.guidPrefix ≠ r.participant.guidPrefix

theorem Report.operation_eq (r : Report) :
    r.operation = if r.isRemote then some (CommonParticipant.operationOf r.endpoint r.status) else none := by
  cases hr : r.isReader <;>
    simp [Report.operation, Report.endpoint, Report.isRemote, hr, CommonParticipant.onReaderDiscovery,
      CommonParticipant.onWriterDiscovery, CommonParticipant.onDiscovery]

theorem Report.guid_endpoint (r : Report) : r.endpoint.guid = r.info.guid := by
  unfold Report.endpoint CommonParticipant.createWriterFromInfo
  split
  · rfl
  · simp only
    split <;> rfl

theorem Report.topic_endpoint (r : Report) : r.endpoint.topic = CommonParticipant.discoveredTopic r.depth r.info := by
  unfold Report.endpoint CommonParticipant.createWriterFromInfo
  split
  · rfl
  · simp only
    split <;> rfl

theorem Report.isReader_endpoint (r : Report) : r.endpoint.isReader = r.isReader := by
  unfold Report.endpoint
  split
  · rename_i hr
    rw [hr]
    rfl
  · rename_i hr
    rw [Bool.eq_false_iff.mpr hr]
    rfl

/-- The user has the router from the end of its constructor to the beginning of its
destructor. `startDatabase` is the last thing that the constructor does,
`clearCallbacks` and `signalExit` are the first that the destructor does. -/
inductive Action where
  | report (r : Report)
  | startDatabase
  | thread
  | start | stop
  | reload (c : Router.ReloadConfiguration)
  | clearCallbacks | signalExit
  deriving DecidableEq, Repr

variable (env : Router.Env)

/-- The call that the thread of the database makes next. -/
def nextCall (d : DiscoveryQueue.State Callback) : Option (Callback × DiscoveryEvent) :=
  match d.point with
  | .calling event next => ((d.callbacks event.kind)[next]?).map fun c => (c, event)
  | _ => none

def callBack (s : Router.State) : Callback × DiscoveryEvent → Router.State
  | (.discoveredEndpoint, event) => Router.discoveredEndpoint env s event.endpoint
  | (.removedEndpoint, event) => Router.removedEndpoint s event.endpoint
  | (.echoDiscovery _, _) => s

/-- A call to the router while it is constructed and not being destroyed. -/
def control (s : State) (a : Router.Action) : Option State :=
  if s.discovery.enabled then (Router.step env s.router a).map fun r => { s with router := r } else none

def step (s : State) : Action → Option State
  | .report r =>
    match r.operation with
    | some op => some { s with discovery := DiscoveryQueue.pushItemToQueue s.discovery op }
    | none => some s
  | .startDatabase => (DiscoveryQueue.start s.discovery).map fun d => { s with discovery := d }
  | .thread =>
    (DiscoveryQueue.threadStep s.discovery).map fun d =>
      { discovery := d
        router := ((nextCall s.discovery).map (callBack env s.router)).getD s.router }
  | .start => control env s .start
  | .stop => control env s .stop
  | .reload c => control env s (.reload c)
  | .clearCallbacks => (DiscoveryQueue.clearAllCallbacks s.discovery).map fun d => { s with discovery := d }
  | .signalExit => (DiscoveryQueue.signalExit s.discovery).map fun d => { s with discovery := d }

/-- The router before its constructor starts the thread of the database. The echo
participants that are to print discoveries register after the router. -/
def create (c : Router.ReloadConfiguration) (echoes : List ParticipantId) : State where
  discovery :=
    { callbacks := fun
        | .added => .discoveredEndpoint :: echoes.map .echoDiscovery
        | .updated => []
        | .erased => [.removedEndpoint] }
  router := Router.create env c

/-! ### The two parts of the system -/

/-- What a step is for the router. -/
def routerActions (s : State) : Action → List Router.Action
  | .thread =>
    match nextCall s.discovery with
    | some (.discoveredEndpoint, event) => [.discovered event.endpoint]
    | some (.removedEndpoint, event) => [.removed event.endpoint]
    | _ => []
  | .start => [.start]
  | .stop => [.stop]
  | .reload c => [.reload c]
  | .report _ | .startDatabase | .clearCallbacks | .signalExit => []

/-- What a step is for the database. -/
def databaseActions (_ : State) : Action → List (DiscoveryQueue.Action Callback)
  | .report r => r.operation.toList.map .push
  | .startDatabase => [.start]
  | .thread => [.thread]
  | .clearCallbacks => [.clearAllCallbacks]
  | .signalExit => [.signalExit]
  | .start | .stop | .reload _ => []

variable {env : Router.Env} {s s' : State}

theorem control_inv {a : Router.Action} (h : control env s a = some s') :
    s.discovery.enabled = true ∧ ∃ r, Router.step env s.router a = some r ∧ s' = { s with router := r } := by
  unfold control at h
  split at h
  · rename_i he
    obtain ⟨r, hr, rfl⟩ := Option.map_eq_some_iff.mp h
    exact ⟨he, r, hr, rfl⟩
  · cases h

theorem routerActions_step {a : Action} (h : step env s a = some s') :
    run (Router.step env) s.router (routerActions s a) = some s'.router := by
  cases a with
  | report r =>
    simp only [step] at h
    split at h
    · cases h
      rfl
    · cases h
      rfl
  | startDatabase | clearCallbacks | signalExit =>
    simp only [step, Option.map_eq_some_iff] at h
    obtain ⟨d, -, rfl⟩ := h
    rfl
  | thread =>
    simp only [step, Option.map_eq_some_iff] at h
    obtain ⟨d, -, rfl⟩ := h
    simp only [routerActions]
    cases nextCall s.discovery with
    | none => rfl
    | some call =>
      obtain ⟨c, event⟩ := call
      cases c with
      | discoveredEndpoint | removedEndpoint | echoDiscovery => rfl
  | start | stop | reload =>
    obtain ⟨-, r, hr, rfl⟩ := control_inv h
    simp [routerActions, run, hr]

theorem databaseActions_step {a : Action} (h : step env s a = some s') :
    run DiscoveryQueue.step s.discovery (databaseActions s a) = some s'.discovery := by
  cases a with
  | report r =>
    simp only [step] at h
    split at h
    · rename_i op hop
      cases h
      simp [databaseActions, hop, run, DiscoveryQueue.step]
    · rename_i hop
      cases h
      simp [databaseActions, hop]
  | startDatabase | clearCallbacks | signalExit =>
    simp only [step, Option.map_eq_some_iff] at h
    obtain ⟨d, hd, rfl⟩ := h
    simp [databaseActions, run, DiscoveryQueue.step, hd]
  | thread =>
    simp only [step, Option.map_eq_some_iff] at h
    obtain ⟨d, hd, rfl⟩ := h
    simp [databaseActions, run, DiscoveryQueue.step, hd]
  | start | stop | reload =>
    obtain ⟨-, r, -, rfl⟩ := control_inv h
    rfl

/-- The router of the system is a router. -/
theorem router_run {s₀ : State} {as : List Action} (hr : run (step env) s₀ as = some s) :
    run (Router.step env) s₀.router (trace (step env) routerActions s₀ as) = some s.router :=
  run_projects (f := State.router) (fun _ _ _ => routerActions_step) hr

/-- The database of the system is a database. -/
theorem discovery_run {s₀ : State} {as : List Action} (hr : run (step env) s₀ as = some s) :
    run DiscoveryQueue.step s₀.discovery (trace (step env) databaseActions s₀ as) = some s.discovery :=
  run_projects (f := State.discovery) (fun _ _ _ => databaseActions_step) hr

/-! ### What reaches the router -/

/-- The calls of the listeners in a run. -/
def reports (as : List Action) : List Report :=
  as.filterMap fun
    | .report r => some r
    | _ => none

/-- The operations that the listeners push. -/
def announcements (as : List Action) : List DatabaseOperation := (reports as).filterMap Report.operation

/-- The endpoints that `discovered_endpoint_` was called for. -/
def discoveredCalls (fired : List (Callback × DiscoveryEvent)) : List Endpoint :=
  fired.filterMap fun
    | (.discoveredEndpoint, event) => some event.endpoint
    | _ => none

def discoveries (as : List Router.Action) : List Endpoint :=
  as.filterMap fun
    | .discovered e => some e
    | _ => none

/-- The endpoints that were new to the database. -/
def newEndpoints (events : List DiscoveryEvent) : List Endpoint :=
  events.filterMap fun
    | .discovered e => some e
    | _ => none

theorem pushes_trace {s₀ : State} {as : List Action} (hr : run (step env) s₀ as = some s) :
    DiscoveryQueue.pushes (trace (step env) databaseActions s₀ as) = announcements as := by
  induction as generalizing s₀ with
  | nil => rfl
  | cons a as ih =>
    obtain ⟨s₁, hs, hr⟩ := run_cons_some.mp hr
    rw [trace_cons hs, DiscoveryQueue.pushes, List.filterMap_append, ← DiscoveryQueue.pushes, ← DiscoveryQueue.pushes,
      ih hr]
    cases a with
    | report r => cases hop : r.operation <;> simp [databaseActions, DiscoveryQueue.pushes, announcements, reports, hop]
    | startDatabase | thread | start | stop | reload | clearCallbacks | signalExit => rfl

theorem threadStep_fired {d d' : DiscoveryQueue.State Callback} (h : DiscoveryQueue.threadStep d = some d') :
    d'.fired = d.fired ++ (nextCall d).toList := by
  unfold DiscoveryQueue.threadStep at h
  cases hp : d.point with
  | calling event next =>
    simp only [hp] at h
    cases hc : (d.callbacks event.kind)[next]? with
    | none =>
      simp only [hc, Option.some.injEq] at h
      subst h
      simp [nextCall, hp, hc]
    | some c =>
      simp only [hc, Option.some.injEq] at h
      subst h
      simp [nextCall, hp, hc]
  | stopped | waiting | swapping | testing | processing | notifying | popping =>
    have hnone : nextCall d = none := by simp [nextCall, hp]
    rw [hnone, Option.toList_none, List.append_nil]
    simp only [hp] at h
    repeat' split at h
    all_goals
      cases h
      try rfl

theorem discoveredCalls_step {a : Action} (h : step env s a = some s') :
    discoveredCalls s'.discovery.fired = discoveredCalls s.discovery.fired ++ discoveries (routerActions s a) := by
  have hsame : s'.discovery.fired = s.discovery.fired → discoveries (routerActions s a) = [] →
      discoveredCalls s'.discovery.fired = discoveredCalls s.discovery.fired ++ discoveries (routerActions s a) := by
    intro hf hd
    rw [hf, hd, List.append_nil]
  cases a with
  | report r =>
    simp only [step] at h
    split at h
    · cases h
      exact hsame rfl rfl
    · cases h
      exact hsame rfl rfl
  | startDatabase =>
    simp only [step, Option.map_eq_some_iff] at h
    obtain ⟨d, hd, rfl⟩ := h
    refine hsame ?_ rfl
    unfold DiscoveryQueue.start at hd
    repeat' split at hd
    all_goals
      cases hd
      try rfl
  | clearCallbacks =>
    simp only [step, Option.map_eq_some_iff] at h
    obtain ⟨d, hd, rfl⟩ := h
    refine hsame ?_ rfl
    unfold DiscoveryQueue.clearAllCallbacks at hd
    split at hd
    · cases hd
    · cases hd
      rfl
  | signalExit =>
    simp only [step, Option.map_eq_some_iff] at h
    obtain ⟨d, hd, rfl⟩ := h
    refine hsame ?_ rfl
    unfold DiscoveryQueue.signalExit at hd
    split at hd
    · cases hd
      rfl
    · cases hd
  | thread =>
    simp only [step, Option.map_eq_some_iff] at h
    obtain ⟨d, hd, rfl⟩ := h
    show discoveredCalls d.fired = _
    rw [threadStep_fired hd, discoveredCalls, List.filterMap_append]
    congr 1
    simp only [routerActions]
    cases nextCall s.discovery with
    | none => rfl
    | some call =>
      obtain ⟨c, event⟩ := call
      cases c with
      | discoveredEndpoint | removedEndpoint | echoDiscovery => rfl
  | start | stop | reload =>
    obtain ⟨-, r, -, rfl⟩ := control_inv h
    exact hsame rfl rfl

theorem discoveries_trace {s₀ : State} {as : List Action} (hr : run (step env) s₀ as = some s) :
    discoveredCalls s.discovery.fired =
      discoveredCalls s₀.discovery.fired ++ discoveries (trace (step env) routerActions s₀ as) := by
  induction as generalizing s₀ with
  | nil =>
    cases hr
    simp [trace, discoveries]
  | cons a as ih =>
    obtain ⟨s₁, hs, hr⟩ := run_cons_some.mp hr
    rw [ih hr, discoveredCalls_step hs, trace_cons hs, discoveries, discoveries, discoveries, List.filterMap_append,
      List.append_assoc]

/-- The callbacks of the system stay until the destructor clears them. -/
theorem leavesCallbacks_trace {s₀ : State} {as : List Action} (hclear : .clearCallbacks ∉ as) :
    ∀ a ∈ trace (step env) databaseActions s₀ as, a.leavesCallbacks = true := by
  induction as generalizing s₀ with
  | nil => simp [trace]
  | cons a as ih =>
    rw [List.mem_cons, not_or] at hclear
    intro b hb
    simp only [trace] at hb
    split at hb
    · rcases List.mem_append.mp hb with hb | hb
      · cases a with
        | report r =>
          obtain ⟨op, -, rfl⟩ := List.mem_map.mp hb
          rfl
        | startDatabase | thread | signalExit =>
          rw [List.mem_singleton.mp hb]
          rfl
        | clearCallbacks => exact absurd rfl hclear.1
        | start | stop | reload => cases hb
      · exact ih hclear.2 b hb
    · cases hb

theorem idle_create (env : Router.Env) (c : Router.ReloadConfiguration) (echoes : List ParticipantId) :
    DiscoveryQueue.Idle (create env c echoes).discovery := ⟨rfl, .inl rfl⟩

/-- The calls of one event that are for `discovered_endpoint_`. -/
theorem discoveredCalls_calls (env : Router.Env) (c : Router.ReloadConfiguration) (echoes : List ParticipantId)
    (event : DiscoveryEvent) :
    discoveredCalls (DiscoveryQueue.calls event ((create env c echoes).discovery.callbacks event.kind)) =
      newEndpoints [event] := by
  cases event with
  | discovered e =>
    have hecho : discoveredCalls (DiscoveryQueue.calls (.discovered e) (echoes.map .echoDiscovery)) = [] := by
      simp [discoveredCalls, DiscoveryQueue.calls, List.filterMap_map]
    show e :: discoveredCalls (DiscoveryQueue.calls (.discovered e) (echoes.map .echoDiscovery)) = [e]
    rw [hecho]
  | updated e | erased e => rfl

theorem discoveredCalls_log {c : Router.ReloadConfiguration} {echoes : List ParticipantId}
    {log : List (DiscoveryEvent × List Callback)}
    (h : ∀ b ∈ log, b.2 = (create env c echoes).discovery.callbacks b.1.kind) :
    discoveredCalls (log.flatMap fun b => DiscoveryQueue.calls b.1 b.2) = newEndpoints (log.map Prod.fst) := by
  induction log with
  | nil => rfl
  | cons b log ih =>
    rw [List.forall_mem_cons] at h
    rw [List.flatMap_cons, discoveredCalls, List.filterMap_append, ← discoveredCalls, ← discoveredCalls, ih h.2, h.1,
      discoveredCalls_calls]
    obtain ⟨event, found⟩ := b
    cases event <;> rfl

/-- Once the queue is worked off, the router has been told of the endpoints that were
new to the database, in the order in which they were reported. -/
theorem discoveries_drained {c : Router.ReloadConfiguration} {echoes : List ParticipantId} {as : List Action}
    (hr : run (step env) (create env c echoes) as = some s) (hd : s.discovery.queue.bothEmpty = true)
    (hclear : .clearCallbacks ∉ as) :
    discoveries (trace (step env) routerActions (create env c echoes) as) =
      newEndpoints (DiscoveryQueue.events {} (announcements as)) := by
  have hdb := discovery_run hr
  have hleaves : ∀ a ∈ trace (step env) databaseActions (create env c echoes) as, a.leavesCallbacks = true :=
    leavesCallbacks_trace hclear
  obtain ⟨-, log, hlog, hfired, hbetween⟩ := DiscoveryQueue.drained_log (idle_create env c echoes) hdb hd
  have hsame := DiscoveryQueue.run_callbacks hleaves hdb
  have hnoclear : DiscoveryQueue.Action.clearAllCallbacks ∉ trace (step env) databaseActions (create env c echoes) as :=
    fun hm => by simpa [DiscoveryQueue.Action.leavesCallbacks] using hleaves _ hm
  have hfound : ∀ b ∈ log, b.2 = (create env c echoes).discovery.callbacks b.1.kind := by
    intro b hb
    obtain ⟨hlo, hhi⟩ := hbetween hnoclear b hb
    rw [hsame] at hhi
    exact (hlo.eq_of_length_le hhi.length_le).symm
  have hcalls : discoveredCalls s.discovery.fired =
      discoveries (trace (step env) routerActions (create env c echoes) as) := discoveries_trace hr
  rw [pushes_trace hr] at hlog
  rw [← hcalls, hfired, ← show log.map Prod.fst = DiscoveryQueue.events {} (announcements as) from hlog]
  exact discoveredCalls_log hfound

/-! ### The first reader of a topic -/

/-- A remote reader is reported as new. -/
def Report.newReader (r : Report) : Bool := r.isRemote && r.isReader && r.status = .discovered

/-- The topics of the remote readers that are reported as new. -/
def readersAnnounced (as : List Action) : List DdsTopic :=
  ((reports as).filter Report.newReader).map fun r => CommonParticipant.discoveredTopic r.depth r.info

/-- A guid belongs to one endpoint, which does not change its topic. -/
def Stable (as : List Action) : Prop :=
  ∀ r ∈ reports as, ∀ r' ∈ reports as, r.info.guid = r'.info.guid →
    r.isReader = r'.isReader ∧ r.info.topicName = r'.info.topicName ∧ r.info.typeName = r'.info.typeName

instance (as : List Action) : Decidable (Stable as) :=
  inferInstanceAs (Decidable (∀ r ∈ reports as, ∀ r' ∈ reports as, r.info.guid = r'.info.guid →
    r.isReader = r'.isReader ∧ r.info.topicName = r'.info.topicName ∧ r.info.typeName = r'.info.typeName))

/-- The topics of the readers that are added. -/
def readersAdded (ops : List DatabaseOperation) : List DdsTopic :=
  ops.filterMap fun
    | .add e => if e.isReader then some e.topic else none
    | _ => none

theorem readersAdded_append (ops ops' : List DatabaseOperation) :
    readersAdded (ops ++ ops') = readersAdded ops ++ readersAdded ops' := List.filterMap_append

theorem newEndpoints_append (events events' : List DiscoveryEvent) :
    newEndpoints (events ++ events') = newEndpoints events ++ newEndpoints events' := List.filterMap_append

def plainReader (e : Endpoint) : Option DdsTopic :=
  if e.isReader && !RPCTopic.isServiceTopic e.topic then some e.topic else none

/-- What is in the database under a guid was added under it. -/
theorem added_of_find {ops : List DatabaseOperation} {g : Guid} {old : Endpoint}
    (h : (DiscoveryQueue.processAll {} ops).entities.find g = some old) : ∃ e, .add e ∈ ops ∧ e.guid = g := by
  induction ops using List.reverseRecOn generalizing old with
  | nil => simp [DiscoveryQueue.processAll] at h
  | append_singleton ops op ih =>
    rw [DiscoveryQueue.processAll_concat] at h
    have hp := DiscoveryQueue.processed (DiscoveryQueue.processAll {} ops) op
    generalize ((DiscoveryQueue.processAll {} ops).process op).1 = db' at h hp
    generalize ((DiscoveryQueue.processAll {} ops).process op).2 = event at hp
    have hold : ∀ old, (DiscoveryQueue.processAll {} ops).entities.find g = some old →
        ∃ e, .add e ∈ ops ++ [op] ∧ e.guid = g := by
      intro old hf
      obtain ⟨e, he, hg⟩ := ih hf
      exact ⟨e, List.mem_append_left _ he, hg⟩
    cases hp with
    | inserted e =>
      rw [OrdMap.find_set] at h
      split at h
      · rename_i hs
        exact ⟨e, List.mem_append_right _ (List.mem_singleton.mpr rfl), (same_iff_eq.mp hs).symm⟩
      · exact hold old h
    | revived e old' hf =>
      rw [OrdMap.find_set] at h
      split at h
      · rename_i hs
        exact hold old' (same_iff_eq.mp hs ▸ hf)
      · exact hold old h
    | updated e old' hf =>
      rw [OrdMap.find_set] at h
      split at h
      · rename_i hs
        exact hold old' (same_iff_eq.mp hs ▸ hf)
      · exact hold old h
    | erased e =>
      rw [OrdMap.find_erase] at h
      split at h
      · cases h
      · exact hold old h
    | refused => exact hold old h

/-- Of the readers that are added in a topic, the first is new to the database. -/
theorem find?_newEndpoints {ops : List DatabaseOperation} {t : DdsTopic} (hplain : RPCTopic.isServiceTopic t = false)
    (hstable : ∀ e e', .add e ∈ ops → .add e' ∈ ops → e.guid = e'.guid →
      e.isReader = e'.isReader ∧ same e.topic e'.topic = true) :
    ((newEndpoints (DiscoveryQueue.events {} ops)).filterMap plainReader).find? (same t) =
      (readersAdded ops).find? (same t) := by
  induction ops using List.reverseRecOn with
  | nil => rfl
  | append_singleton ops op ih =>
    have ih := ih fun e e' he he' => hstable e e' (List.mem_append_left _ he) (List.mem_append_left _ he')
    rw [DiscoveryQueue.events_concat, newEndpoints_append, List.filterMap_append, List.find?_append, ih,
      readersAdded_append, List.find?_append]
    cases hfound : (readersAdded ops).find? (same t) with
    | some x => rfl
    | none =>
      rw [Option.none_or, Option.none_or]
      have hp := DiscoveryQueue.processed (DiscoveryQueue.processAll {} ops) op
      generalize ((DiscoveryQueue.processAll {} ops).process op).1 = db' at hp
      generalize ((DiscoveryQueue.processAll {} ops).process op).2 = event at hp
      -- an addition under a guid that is there already is not the first one of its topic
      have hlater : ∀ e old, op = .add e → (DiscoveryQueue.processAll {} ops).entities.find e.guid = some old →
          (readersAdded [op]).find? (same t) = none := by
        rintro e old rfl hf
        obtain ⟨e', he', hg⟩ := added_of_find hf
        obtain ⟨hkind, hsame⟩ := hstable e' e (List.mem_append_left _ he') (List.mem_append_right _ (by simp)) hg
        rw [List.find?_eq_none] at hfound ⊢
        intro x hx hs
        obtain ⟨hr, rfl⟩ : e.isReader = true ∧ e.topic = x := by
          simpa [readersAdded] using hx
        refine hfound e'.topic ?_ (same_trans hs (same_symm hsame))
        exact List.mem_filterMap.mpr ⟨.add e', he', by simp [hkind, hr]⟩
      cases hp with
      | inserted e =>
        simp only [Option.toList_some, newEndpoints, readersAdded, List.filterMap_cons, List.filterMap_nil, plainReader]
        cases hr : e.isReader with
        | false => rfl
        | true =>
          cases hs : same t e.topic with
          | false => split <;> simp_all
          | true => simp [← Router.isServiceTopic_congr hs, hplain]
      | revived e old hf => rw [hlater e old rfl hf]; rfl
      | updated | erased => rfl
      | refused op hthrows =>
        cases op with
        | add e =>
          obtain ⟨old, hf, -⟩ := hthrows
          rw [hlater e old rfl hf]
          rfl
        | update | erase => rfl

/-! ### What the router comes to know -/

/-- The builtin topics of a reload that takes effect. -/
def builtinReloaded (s : State) : Action → List DdsTopic
  | .reload c => if s.router.enabled then c.builtinTopics else []
  | _ => []

/-- The router takes topics from reloads and from its callback. -/
theorem trace_introduced {a : Action} (hs : step env s a = some s') :
    trace (Router.step env) Router.introduced s.router (routerActions s a) =
      builtinReloaded s a ++ (discoveries (routerActions s a)).filterMap plainReader := by
  have hrun := routerActions_step hs
  have hone : ∀ b, routerActions s a = [b] →
      trace (Router.step env) Router.introduced s.router (routerActions s a) = Router.introduced s.router b := by
    intro b hb
    rw [hb] at hrun ⊢
    obtain ⟨r, hr, -⟩ := run_cons_some.mp hrun
    rw [trace_cons hr, trace, List.append_nil]
  cases a with
  | report | startDatabase | clearCallbacks | signalExit => rfl
  | start | stop =>
    rw [hone _ rfl]
    rfl
  | reload c =>
    rw [hone _ rfl]
    exact (List.append_nil _).symm
  | thread =>
    cases hcall : nextCall s.discovery with
    | none => simp [routerActions, hcall, trace, builtinReloaded, discoveries]
    | some call =>
      obtain ⟨c, event⟩ := call
      cases c with
      | discoveredEndpoint =>
        have hb : routerActions s .thread = [.discovered event.endpoint] := by simp only [routerActions, hcall]
        rw [hone _ hb, hb]
        simp only [Router.introduced, builtinReloaded, discoveries, List.filterMap_cons, List.filterMap_nil, plainReader,
          List.nil_append]
        split <;> rfl
      | removedEndpoint =>
        have hb : routerActions s .thread = [.removed event.endpoint] := by simp only [routerActions, hcall]
        rw [hone _ hb, hb]
        rfl
      | echoDiscovery id =>
        have hb : routerActions s .thread = [] := by simp only [routerActions, hcall]
        rw [hb]
        rfl

theorem readersAdded_announcements (as : List Action) : readersAdded (announcements as) = readersAnnounced as := by
  rw [readersAdded, announcements, List.filterMap_filterMap, readersAnnounced, ← List.filterMap_eq_map,
    List.filterMap_filter]
  congr 1
  funext r
  rw [r.operation_eq, Report.newReader]
  cases r.isRemote with
  | false => rfl
  | true =>
    cases hst : r.status with
    | discovered => simp [CommonParticipant.operationOf, r.isReader_endpoint, r.topic_endpoint]
    | changedQos | removed | dropped => simp [CommonParticipant.operationOf]

/-- An addition comes from a report. -/
theorem mem_announcements_add {as : List Action} {e : Endpoint} (h : .add e ∈ announcements as) :
    ∃ r ∈ reports as, e = r.endpoint := by
  obtain ⟨r, hr, hop⟩ := List.mem_filterMap.mp h
  rw [r.operation_eq] at hop
  split at hop
  · cases hst : r.status with
    | discovered =>
      rw [hst] at hop
      cases hop
      exact ⟨r, hr, rfl⟩
    | changedQos | removed | dropped =>
      rw [hst] at hop
      cases hop
  · cases hop

theorem stable_announcements {as : List Action} (h : Stable as) (e e' : Endpoint) (he : .add e ∈ announcements as)
    (he' : .add e' ∈ announcements as) (hg : e.guid = e'.guid) :
    e.isReader = e'.isReader ∧ same e.topic e'.topic = true := by
  obtain ⟨r, hr, rfl⟩ := mem_announcements_add he
  obtain ⟨r', hr', rfl⟩ := mem_announcements_add he'
  rw [r.guid_endpoint, r'.guid_endpoint] at hg
  obtain ⟨hkind, hname, htype⟩ := h r hr r' hr' hg
  rw [r.isReader_endpoint, r'.isReader_endpoint, r.topic_endpoint, r'.topic_endpoint, DdsTopic.same_iff_names]
  exact ⟨hkind, Prod.ext hname htype⟩

section Known

variable {c : Router.ReloadConfiguration} {echoes : List ParticipantId} {as : List Action} {t : DdsTopic}

/-- The topics that have reached the router, in the order in which they did. -/
theorem knownAs_system (hr : run (step env) (create env c echoes) as = some s) (t : DdsTopic) :
    s.router.knownAs t = (c.builtinTopics ++ trace (step env) (fun s a => builtinReloaded s a ++
      (discoveries (routerActions s a)).filterMap plainReader) (create env c echoes) as).find? (same t) := by
  have hk := Router.knownAs_run (router_run hr) t
  rw [hk]
  congr 2
  calc trace (Router.step env) Router.introduced (Router.create env c)
        (trace (step env) routerActions (create env c echoes) as)
      = trace (step env) (fun s a => trace (Router.step env) Router.introduced s.router (routerActions s a))
          (create env c echoes) as := trace_trace (f := State.router) (fun _ _ _ => routerActions_step) hr
    _ = _ := trace_congr (fun _ _ _ => trace_introduced) _ _

theorem trace_discoveries {s₀ : State} (hr : run (step env) s₀ as = some s) :
    trace (step env) (fun s a => (discoveries (routerActions s a)).filterMap plainReader) s₀ as =
      (discoveries (trace (step env) routerActions s₀ as)).filterMap plainReader := by
  rw [trace_filterMap plainReader hr]
  congr 1
  exact trace_filterMap _ hr

/-- Where no builtin topic has the name and type, the router knows the topic of the
reader that was announced first. -/
theorem knownAs_first_reader (hr : run (step env) (create env c echoes) as = some s)
    (hd : s.discovery.queue.bothEmpty = true) (hclear : .clearCallbacks ∉ as) (hstable : Stable as)
    (hplain : RPCTopic.isServiceTopic t = false) (hbuiltin : ∀ b ∈ c.builtinTopics, same t b = false)
    (hreload : ∀ b ∈ trace (step env) builtinReloaded (create env c echoes) as, same t b = false) :
    s.router.knownAs t = (readersAnnounced as).find? (same t) := by
  have hnone : c.builtinTopics.find? (same t) = none := by
    rw [List.find?_eq_none]
    exact fun b hb => Bool.not_eq_true _ ▸ hbuiltin b hb
  rw [knownAs_system hr, List.find?_append, hnone, Option.none_or, find?_trace_append hr hreload]
  rw [trace_discoveries hr, discoveries_drained hr hd hclear,
    find?_newEndpoints hplain (stable_announcements hstable), readersAdded_announcements]

/-- Once the queue is worked off, the router knows the builtin topics, those of the
reloads that took effect, and the topics of the remote readers that were announced. -/
theorem contains_iff_named (hr : run (step env) (create env c echoes) as = some s)
    (hd : s.discovery.queue.bothEmpty = true) (hclear : .clearCallbacks ∉ as) (hstable : Stable as)
    (hplain : RPCTopic.isServiceTopic t = false) :
    s.router.currentTopics.contains t = true ↔
      ∃ b ∈ c.builtinTopics ++ trace (step env) builtinReloaded (create env c echoes) as ++ readersAnnounced as,
        same t b = true := by
  have hfirst : (∃ b ∈ (newEndpoints (DiscoveryQueue.events {} (announcements as))).filterMap plainReader,
      same t b = true) ↔ ∃ b ∈ readersAnnounced as, same t b = true := by
    rw [← List.find?_isSome, find?_newEndpoints hplain (stable_announcements hstable), readersAdded_announcements,
      List.find?_isSome]
  rw [← OrdMap.isSome_keyOf, ← Router.State.knownAs, knownAs_system hr, List.find?_isSome]
  simp only [List.mem_append, or_and_right, exists_or]
  rw [or_assoc]
  refine or_congr_right ?_
  rw [← hfirst, ← discoveries_drained hr hd hclear]
  simp only [mem_trace_append hr, or_and_right, exists_or, trace_discoveries hr]

/-- Whatever the order of reports, of the thread of the database and of the user: once
the queue is worked off, the router knows exactly the topics that were named to it,
and those of them that are allowed have bridges that are on while the router is. -/
theorem topics_follow_discovery (hr : run (step env) (create env c echoes) as = some s)
    (hd : s.discovery.queue.bothEmpty = true) (hclear : .clearCallbacks ∉ as) (hstable : Stable as)
    (hplain : RPCTopic.isServiceTopic t = false) :
    (s.router.currentTopics.contains t = true ↔
      ∃ b ∈ c.builtinTopics ++ trace (step env) builtinReloaded (create env c echoes) as ++ readersAnnounced as,
        same t b = true) ∧
    ((∃ b, s.router.bridges.find t = some b ∧ b.enabled = true) ↔
      s.router.enabled = true ∧ ∃ k, s.router.knownAs t = some k ∧ Router.topicAllowed env s.router k = true) :=
  ⟨contains_iff_named hr hd hclear hstable hplain, Router.exists_bridge_on_iff (router_run hr) t⟩

end Known

/-! A reader is reported by two participants, and its participant's own reader by one of
them; the router is started before the thread has come to the reports. -/

def lanParticipant : CommonParticipant := ⟨⟨"lan"⟩, 1, false⟩

def wanParticipant : CommonParticipant := ⟨⟨"wan"⟩, 2, false⟩

def chatReader (g : GuidPrefix) : EndpointInfo := { guid := ⟨g, 7⟩, topicName := "chat", typeName := "String" }

def reportedTwice : List Action :=
  [.startDatabase, .report ⟨lanParticipant, true, chatReader 9, .discovered, 1000⟩,
    .report ⟨wanParticipant, true, chatReader 9, .discovered, 1000⟩,
    .report ⟨wanParticipant, true, chatReader 2, .discovered, 1000⟩, .start] ++ List.replicate 13 .thread

theorem topics_follow_reportedTwice :
    ∃ s, run (step Router.plainEnv) (create Router.plainEnv {} [⟨"echo"⟩]) reportedTwice = some s ∧
      (∃ b, s.router.bridges.find Router.chat = some b ∧ b.enabled = true) ∧
      readersAnnounced reportedTwice = [Router.chat, Router.chat] := by
  have hcheck : (run (step Router.plainEnv) (create Router.plainEnv {} [⟨"echo"⟩]) reportedTwice).map (fun s =>
      (s.discovery.queue.bothEmpty, s.router.enabled, s.router.knownAs Router.chat,
        Router.topicAllowed Router.plainEnv s.router Router.chat)) = some (true, true, some Router.chat, true) := by
    decide +kernel
  obtain ⟨s, hr, hs⟩ := Option.map_eq_some_iff.mp hcheck
  simp only [Prod.mk.injEq] at hs
  obtain ⟨-, hon⟩ := topics_follow_discovery (t := Router.chat) hr hs.1 (by decide) (by decide) (by decide)
  exact ⟨s, hr, hon.mpr ⟨hs.2.1, Router.chat, hs.2.2⟩, by decide⟩

/-! ### The end of the router -/

/-- Steps that go on while the destructor waits for the thread: reports, and the thread. -/
def Action.ofOthers : Action → Bool
  | .report _ | .thread => true
  | _ => false

/-- The steps that the thread can still take once it is told to exit and has no callbacks
to call, unless more is pushed before it swaps the queue. -/
def remaining (d : DiscoveryQueue.State Callback) : Nat :=
  match d.point with
  | .stopped => 0
  | .waiting => 1
  | .swapping => 5 * d.queue.background.length + 3
  | .testing => 5 * d.queue.foreground.length + 2
  | .processing _ => 5 * (d.queue.foreground.length - 1) + 6
  | .notifying _ => 5 * (d.queue.foreground.length - 1) + 5
  | .calling _ _ => 5 * (d.queue.foreground.length - 1) + 4
  | .popping => 5 * (d.queue.foreground.length - 1) + 3

theorem remaining_push (d : DiscoveryQueue.State Callback) (op : DatabaseOperation) :
    remaining (DiscoveryQueue.pushItemToQueue d op) ≤ remaining d + 5 := by
  unfold remaining DiscoveryQueue.pushItemToQueue
  cases d.point with
  | swapping =>
    simp only [DBQueue.push, List.length_append, List.length_singleton]
    omega
  | stopped | waiting | testing | processing | notifying | calling | popping => exact Nat.le_add_right _ _

/-- Every step of the thread brings it nearer to its end. -/
theorem remaining_thread {d d' : DiscoveryQueue.State Callback} (hc : d.callbacks = fun _ => [])
    (he : d.exit = true) (h : DiscoveryQueue.threadStep d = some d') : remaining d' + 1 ≤ remaining d := by
  unfold DiscoveryQueue.threadStep at h
  cases hp : d.point with
  | stopped =>
    simp only [hp] at h
    cases h
  | waiting =>
    simp only [hp, he, if_true, Option.some.injEq] at h
    subst h
    simp [remaining, hp]
  | swapping =>
    simp only [hp, Option.some.injEq] at h
    subst h
    simp [remaining, hp, DBQueue.swap]
  | testing =>
    simp only [hp] at h
    cases hf : d.queue.foreground with
    | nil =>
      simp only [hf, Option.some.injEq] at h
      subst h
      simp [remaining, hp]
    | cons op ops =>
      simp only [hf, Option.some.injEq] at h
      subst h
      simp [remaining, hp, hf]
      omega
  | processing op =>
    simp only [hp] at h
    split at h
    · cases h
      simp [remaining, hp]
    · cases h
      simp [remaining, hp]
  | notifying event =>
    simp only [hp, Option.some.injEq] at h
    subst h
    simp [remaining, hp]
  | calling event next =>
    simp only [hp, hc, List.getElem?_nil, Option.some.injEq] at h
    subst h
    simp [remaining, hp]
  | popping =>
    simp only [hp, Option.some.injEq] at h
    subst h
    simp [remaining, hp, DBQueue.pop]

/-- The thread that is told to exit is never left waiting. -/
theorem threadStep_of_exit {d : DiscoveryQueue.State Callback} (he : d.exit = true) (hp : d.point ≠ .stopped) :
    ∃ d', DiscoveryQueue.threadStep d = some d' := by
  rw [← Option.isSome_iff_exists]
  unfold DiscoveryQueue.threadStep
  cases hd : d.point with
  | stopped => exact absurd hd hp
  | waiting => simp [he]
  | testing => cases d.queue.foreground <;> rfl
  | processing op =>
    simp only
    split <;> rfl
  | calling event next =>
    simp only
    split <;> rfl
  | swapping | notifying | popping => rfl

/-- What stays while the destructor waits. -/
structure Cleared (s₀ s : State) : Prop where
  callbacks : s.discovery.callbacks = fun _ => []
  fired : s.discovery.fired = s₀.discovery.fired
  router : s.router = s₀.router
  exit : s₀.discovery.exit = true → s.discovery.exit = true

theorem nextCall_of_cleared {s₀ : State} (h : Cleared s₀ s) : nextCall s.discovery = none := by
  unfold nextCall
  split
  · rw [h.callbacks]
    rfl
  · rfl

theorem threadStep_exit {d d' : DiscoveryQueue.State Callback} (h : DiscoveryQueue.threadStep d = some d') :
    d'.exit = d.exit := by
  unfold DiscoveryQueue.threadStep at h
  repeat' split at h
  all_goals
    cases h
    try rfl

theorem cleared_step {s₀ : State} {a : Action} (h : Cleared s₀ s) (ha : a.ofOthers = true)
    (hs : step env s a = some s') : Cleared s₀ s' := by
  cases a with
  | report r =>
    simp only [step] at hs
    split at hs
    · cases hs
      exact ⟨h.callbacks, h.fired, h.router, h.exit⟩
    · cases hs
      exact h
  | thread =>
    simp only [step, Option.map_eq_some_iff] at hs
    obtain ⟨d, hd, rfl⟩ := hs
    have hcall := nextCall_of_cleared h
    constructor
    · exact (DiscoveryQueue.threadStep_callbacks hd).trans h.callbacks
    · show d.fired = _
      rw [threadStep_fired hd, hcall, Option.toList_none, List.append_nil, h.fired]
    · show (Option.map _ (nextCall s.discovery)).getD s.router = _
      rw [hcall]
      exact h.router
    · exact fun he => (threadStep_exit hd).trans (h.exit he)
  | startDatabase | start | stop | reload | clearCallbacks | signalExit => cases ha

theorem cleared_run {s₀ : State} {as : List Action} (h : Cleared s₀ s) (ha : ∀ a ∈ as, a.ofOthers = true)
    (hr : run (step env) s as = some s') : Cleared s₀ s' := by
  induction as generalizing s with
  | nil =>
    cases hr
    exact h
  | cons a as ih =>
    obtain ⟨s₁, hs, hr⟩ := run_cons_some.mp hr
    rw [List.forall_mem_cons] at ha
    exact ih (cleared_step h ha.1 hs) ha.2 hr

theorem count_thread_le {as : List Action} (hc : s.discovery.callbacks = fun _ => []) (he : s.discovery.exit = true)
    (ha : ∀ a ∈ as, a.ofOthers = true) (hr : run (step env) s as = some s') :
    as.count .thread + remaining s'.discovery ≤ remaining s.discovery + 5 * (reports as).length := by
  induction as generalizing s with
  | nil =>
    cases hr
    simp [reports]
  | cons a as ih =>
    obtain ⟨s₁, hs, hr⟩ := run_cons_some.mp hr
    rw [List.forall_mem_cons] at ha
    have h : Cleared s s₁ := cleared_step ⟨hc, rfl, rfl, id⟩ ha.1 hs
    have hrest := ih h.callbacks (h.exit he) ha.2 hr
    cases a with
    | report r =>
      have hle : remaining s₁.discovery ≤ remaining s.discovery + 5 := by
        simp only [step] at hs
        split at hs
        · cases hs
          exact remaining_push s.discovery _
        · cases hs
          exact Nat.le_add_right _ _
      have hlen : (reports (.report r :: as)).length = (reports as).length + 1 := rfl
      rw [List.count_cons_of_ne (by simp), hlen]
      omega
    | thread =>
      simp only [step, Option.map_eq_some_iff] at hs
      obtain ⟨d, hd, rfl⟩ := hs
      have hle := remaining_thread hc he hd
      have hlen : (reports (.thread :: as)).length = (reports as).length := rfl
      rw [List.count_cons_self, hlen]
      simp only at hrest
      omega
    | startDatabase | start | stop | reload | clearCallbacks | signalExit => cases ha.1

/-- From the moment that the destructor has cleared the callbacks, no discovery reaches
the router, and when it has also told the thread to exit, the thread can always go on
and comes to its end after a number of steps that only reports can raise. -/
theorem destruction_ends {s₁ s₂ s₃ s₄ : State} {mid rest : List Action}
    (hclear : step env s .clearCallbacks = some s₁) (hmid : run (step env) s₁ mid = some s₂)
    (hm : ∀ a ∈ mid, a.ofOthers = true) (hexit : step env s₂ .signalExit = some s₃)
    (hrest : run (step env) s₃ rest = some s₄) (hq : ∀ a ∈ rest, a.ofOthers = true) :
    s₄.router = s.router ∧ s₄.discovery.fired = s.discovery.fired ∧
      rest.count .thread ≤ remaining s₃.discovery + 5 * (reports rest).length ∧
      (s₄.discovery.point ≠ .stopped → ∃ s₅, step env s₄ .thread = some s₅) := by
  have h₁ : Cleared s s₁ := by
    simp only [step, DiscoveryQueue.clearAllCallbacks, Option.map_eq_some_iff] at hclear
    obtain ⟨d, hd, rfl⟩ := hclear
    split at hd
    · cases hd
    · cases hd
      exact ⟨rfl, rfl, rfl, id⟩
  have h₂ := cleared_run h₁ hm hmid
  obtain ⟨h₃, he⟩ : Cleared s s₃ ∧ s₃.discovery.exit = true := by
    simp only [step, DiscoveryQueue.signalExit, Option.map_eq_some_iff] at hexit
    obtain ⟨d, hd, rfl⟩ := hexit
    split at hd
    · cases hd
      exact ⟨⟨h₂.callbacks, h₂.fired, h₂.router, fun _ => rfl⟩, rfl⟩
    · cases hd
  have h₄ := cleared_run ⟨h₃.callbacks, rfl, rfl, id⟩ hq hrest
  refine ⟨h₄.router.trans h₃.router, h₄.fired.trans h₃.fired, ?_, fun hp => ?_⟩
  · have hcount := count_thread_le h₃.callbacks he hq hrest
    omega
  · obtain ⟨d, hd⟩ := threadStep_of_exit (h₄.exit he) hp
    exact ⟨_, by rw [step, hd]; rfl⟩

/-- The destructor comes when a reader has been reported and the queue is not yet swapped. -/
def reportedBeforeEnd : List Action :=
  [.startDatabase, .report ⟨lanParticipant, true, chatReader 9, .discovered, 1000⟩, .thread]

theorem destruction_ends_reported :
    ∃ s s₄, run (step Router.plainEnv) (create Router.plainEnv {} []) reportedBeforeEnd = some s ∧
      run (step Router.plainEnv) s (.clearCallbacks :: ([.thread] ++ .signalExit :: List.replicate 7 .thread)) = some s₄ ∧
      s₄.discovery.point = .stopped ∧ s₄.discovery.database.entities.contains (chatReader 9).guid = true ∧
      s₄.router = s.router := by
  have hcheck : (run (step Router.plainEnv) (create Router.plainEnv {} []) (reportedBeforeEnd ++
      .clearCallbacks :: ([.thread] ++ .signalExit :: List.replicate 7 .thread))).map (fun s =>
        (s.discovery.point, s.discovery.database.entities.contains (chatReader 9).guid)) = some (.stopped, true) := by
    decide +kernel
  obtain ⟨s₄, hr, hs⟩ := Option.map_eq_some_iff.mp hcheck
  rw [run_append, Option.bind_eq_some_iff] at hr
  obtain ⟨s, hfirst, hlast⟩ := hr
  obtain ⟨s₁, hclear, hr⟩ := run_cons_some.mp hlast
  rw [run_append, Option.bind_eq_some_iff] at hr
  obtain ⟨s₂, hmid, hr⟩ := hr
  obtain ⟨s₃, hexit, hrest⟩ := run_cons_some.mp hr
  obtain ⟨hrouter, -⟩ := destruction_ends hclear hmid (by decide) hexit hrest (by decide)
  simp only [Prod.mk.injEq] at hs
  exact ⟨s, s₄, hfirst, hlast, hs.1, hs.2, hrouter⟩

end RouterDiscovery

end DDSRouter
