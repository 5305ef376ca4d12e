import DDSRouter.BridgeWalks
import DDSRouter.FirstTopics

/-!
# The router with its bridges at work

An operation of the router holds its mutex and calls `enable` or `disable` of one bridge
after another. Each of these calls walks through the tracks of the bridge and may have
to wait for a transmission, while listener and pool threads of all bridges go on. Other
operations wait for the mutex, so what an operation decides depends on the topics
alone, and the calls that it makes are known when it begins.

The thread pool, which `start` and `stop` switch as a whole, may run queued tasks at any
time here. Bridges of services are left out, and so are the waits of an operation for
them and for the threads of the pool.
-/
namespace DDSRouter.Router

open WeakOrder

/-- Calls of `activate_topic_` and of `deactivate_topic_` that reach the bridges. -/
abbrev Calls := List (DdsTopic × Bool)

/-- The calls of a loop, from those of its body. -/
def collect (f : State → DdsTopic → State) (calls : State → DdsTopic → Calls) : State → List DdsTopic → Calls
  | _, [] => []
  | s, t :: ts => calls s t ++ collect f calls (f s t) ts

variable (env : Env)

def activateIfAllowedCalls (s : State) (t : DdsTopic) : Calls := if topicAllowed env s t then [(t, true)] else []

def reloadTopicCalls (s : State) (t : DdsTopic) : Calls :=
  match s.currentTopics.find t with
  | some true => if !topicAllowed env s t then [(t, false)] else []
  | _ => if topicAllowed env s t then [(t, true)] else []

def discoveredTopicCalls (s : State) (t : DdsTopic) : Calls :=
  if s.currentTopics.contains t then []
  else if s.enabled && topicAllowed env s t then [(t, true)] else []

def reloadCalls (s : State) (c : ReloadConfiguration) : Calls :=
  if !c.isValid then []
  else if s.enabled then
    let list := AllowedTopicList.create c.allowlist c.blocklist
    let builtin := newBuiltinTopics s c
    if list.equal env.utils.toFuzzyUtils s.allowedTopics && builtin.keys.isEmpty then []
    else
      let s := { s with allowedTopics := list }
      collect (reloadTopic env) (reloadTopicCalls env) s s.currentTopics.keys ++
        collect (discoveredTopic env) (discoveredTopicCalls env) (s.currentTopics.keys.foldl (reloadTopic env) s)
          builtin.keys
  else []

/-- The calls that an operation makes, in their order. -/
def calls (s : State) : Action → Calls
  | .start =>
    if !s.enabled then
      collect (activateIfAllowed env) (activateIfAllowedCalls env) { s with enabled := true } s.currentTopics.keys
    else []
  | .stop =>
    if s.enabled then collect deactivateTopic (fun _ t => [(t, false)]) { s with enabled := false } s.currentTopics.keys
    else []
  | .reload c => reloadCalls env s c
  | .discovered e => if e.isReader && !RPCTopic.isServiceTopic e.topic then discoveredTopicCalls env s e.topic else []
  | .removed _ => []

/-- What one call makes of the bridge of a topic. -/
def call (t : DdsTopic) (b : Option TopicBridge) (c : DdsTopic × Bool) : Option TopicBridge :=
  if same t c.1 then
    if c.2 then some { topic := (b.map TopicBridge.topic).getD c.1, enabled := true }
    else b.map fun b => { b with enabled := false }
  else b

/-- The loop body does to the bridges what its calls do. -/
def Plays (f : State → DdsTopic → State) (calls : State → DdsTopic → Calls) : Prop :=
  ∀ s k t, (f s k).bridges.find t = (calls s k).foldl (call t) (s.bridges.find t)

variable {env : Env}

theorem plays_collect {f : State → DdsTopic → State} {calls : State → DdsTopic → Calls} (h : Plays f calls)
    (ts : List DdsTopic) (s : State) (t : DdsTopic) :
    (ts.foldl f s).bridges.find t = (collect f calls s ts).foldl (call t) (s.bridges.find t) := by
  induction ts generalizing s with
  | nil => rfl
  | cons k ts ih => rw [List.foldl_cons, ih, h, collect, List.foldl_append]

theorem find_activateTopic (s : State) (k t : DdsTopic) :
    (activateTopic s k).bridges.find t = call t (s.bridges.find t) (k, true) := by
  unfold activateTopic call
  simp only
  split
  · rename_i hf
    simp only [OrdMap.find_set]
    split
    · rename_i hs
      rw [OrdMap.find_congr hs, hf]
      rfl
    · rfl
  · rename_i b hf
    simp only [OrdMap.find_set]
    split
    · rename_i hs
      rw [OrdMap.find_congr hs, hf]
      rfl
    · rfl

theorem find_deactivateTopic (s : State) (k t : DdsTopic) :
    (deactivateTopic s k).bridges.find t = call t (s.bridges.find t) (k, false) := by
  unfold deactivateTopic call
  simp only
  split
  · rename_i hf
    split
    · rename_i hs
      rw [OrdMap.find_congr hs, hf]
      rfl
    · rfl
  · rename_i b hf
    simp only [OrdMap.find_set]
    split
    · rename_i hs
      rw [OrdMap.find_congr hs, hf]
      rfl
    · rfl

theorem plays_activateIfAllowed (env : Env) : Plays (activateIfAllowed env) (activateIfAllowedCalls env) := by
  intro s k t
  unfold activateIfAllowed activateIfAllowedCalls
  split
  · exact find_activateTopic s k t
  · rfl

theorem plays_deactivateTopic : Plays deactivateTopic fun _ t => [(t, false)] :=
  fun s k t => find_deactivateTopic s k t

theorem plays_reloadTopic (env : Env) : Plays (reloadTopic env) (reloadTopicCalls env) := by
  intro s k t
  have hon := find_activateTopic s k t
  have hoff := find_deactivateTopic s k t
  unfold reloadTopic reloadTopicCalls
  by_cases hf : s.currentTopics.find k = some true
  · cases ha : topicAllowed env s k with
    | true => simp [hf]
    | false => simpa [hf] using hoff
  · cases ha : topicAllowed env s k with
    | true => simpa [hf] using hon
    | false => simp

theorem plays_discoveredTopic (env : Env) : Plays (discoveredTopic env) (discoveredTopicCalls env) := by
  intro s k t
  unfold discoveredTopic discoveredTopicCalls
  by_cases hc : s.currentTopics.contains k = true
  · simp [hc]
  · let s₁ : State := { s with currentTopics := s.currentTopics.set k false }
    rw [if_neg hc, if_neg hc]
    show (if (s.enabled && topicAllowed env s k) = true then activateTopic s₁ k else s₁).bridges.find t = _
    split
    · exact find_activateTopic s₁ k t
    · rfl

/-- The bridges after an operation are those before it after its calls. -/
theorem calls_step {s s' : State} {a : Action} (hs : step env s a = some s') (t : DdsTopic) :
    s'.bridges.find t = (calls env s a).foldl (call t) (s.bridges.find t) := by
  cases a with
  | start =>
    cases hs
    unfold start calls
    split
    · simp only
      rw [(foldl_sameTopics (startService_sameTopics env) _ _).bridges, activateAllTopics,
        plays_collect (plays_activateIfAllowed env)]
    · rfl
  | stop =>
    cases hs
    unfold stop calls
    split
    · rw [deactivateAllTopics, plays_collect plays_deactivateTopic]
    · rfl
  | reload c =>
    simp only [step, reloadConfiguration, Option.map_eq_some_iff] at hs
    obtain ⟨⟨code, s₁⟩, hr, rfl⟩ := hs
    simp only [calls, reloadCalls]
    split at hr
    · cases hr
    · rename_i hvalid
      rw [if_neg hvalid]
      split at hr
      · rename_i hon
        rw [if_pos hon]
        split at hr
        · rename_i hsame
          rw [if_pos hsame]
          cases hr
          rfl
        · rename_i hsame
          have hloop := plays_collect (plays_reloadTopic env) s.currentTopics.keys
            { s with allowedTopics := AllowedTopicList.create c.allowlist c.blocklist } t
          cases hr
          rw [if_neg hsame, List.foldl_append, ← hloop, ← plays_collect (plays_discoveredTopic env),
            (foldl_sameTopics (reloadService_sameTopics env) _ _).bridges]
      · rename_i hoff
        rw [if_neg hoff]
        cases hr
        rfl
  | discovered e =>
    cases hs
    simp only [discoveredEndpoint, calls]
    cases hreader : e.isReader with
    | false => rfl
    | true =>
      cases hplain : RPCTopic.isServiceTopic e.topic with
      | false => exact plays_discoveredTopic env s e.topic t
      | true =>
        simp only [if_true, Bool.not_true, Bool.false_eq_true, if_false, Bool.and_false, List.foldl_nil]
        split
        · rw [(discoveredService_sameTopics s _ _ _).bridges]
        · rfl
  | removed e =>
    cases step_move hs with
    | keep => rfl
    | serverRemoved =>
      rw [removedService, (updateBridge_sameTopics s _ _).bridges]
      rfl

/-- Nothing is activated while the router is off. -/
theorem discoveredTopic_off (env : Env) {s : State} (t : DdsTopic) (hoff : s.enabled = false) :
    (discoveredTopic env s t).enabled = false ∧ (discoveredTopic env s t).bridges = s.bridges := by
  unfold discoveredTopic
  split
  · exact ⟨hoff, rfl⟩
  · simp [hoff]

theorem create_off (env : Env) (c : ReloadConfiguration) :
    (create env c).enabled = false ∧ (create env c).bridges = OrdMap.empty := by
  have hloop : ∀ (ts : List DdsTopic) (s : State), s.enabled = false →
      (ts.foldl (discoveredTopic env) s).enabled = false ∧ (ts.foldl (discoveredTopic env) s).bridges = s.bridges := by
    intro ts
    induction ts with
    | nil => exact fun s hoff => ⟨hoff, rfl⟩
    | cons t ts ih =>
      intro s hoff
      have hone := discoveredTopic_off env t hoff
      obtain ⟨he, hb⟩ := ih _ hone.1
      exact ⟨he, hb.trans hone.2⟩
  exact hloop c.builtinTopics _ rfl

end DDSRouter.Router

namespace DDSRouter.RouterBridges

open Runs WeakOrder
open Router (Env Calls TopicBridge)
open DDSBridge (Bridge ParticipantsDatabase)

/-- `bridges` holds each bridge with the topic that it was created for. Of the operation
that holds the mutex of the router, `pending` are the calls still to be made and `inside`
is the bridge that it is in. -/
structure State where
  router : Router.State
  bridges : OrdMap DdsTopic (DdsTopic × Bridge) := OrdMap.empty
  pending : Calls := []
  inside : Option DdsTopic := none

inductive Action where
  | operation (a : Router.Action)
  | call
  | walk
  | track (t : DdsTopic) (id : ParticipantId) (a : Track.Action)
  deriving DecidableEq, Repr

/-- The mutex of the router is free. -/
def State.free (s : State) : Bool := s.pending.isEmpty && s.inside.isNone

/-- The one database of the router, with the readers that its participants create for a topic. -/
def forTopic (db : ParticipantsDatabase) (readers : DdsTopic → ParticipantId → Reader) (t : DdsTopic) :
    ParticipantsDatabase := { db with createReader := readers t }

variable (env : Env) (db : ParticipantsDatabase) (readers : DdsTopic → ParticipantId → Reader)

/-- One step of a bridge. -/
def bridgeStep (s : State) (t : DdsTopic) (a : DDSBridge.Action) : Option State :=
  (s.bridges.find t).bind fun e =>
    (DDSBridge.step db e.2 a).map fun b => { s with bridges := s.bridges.set t (e.1, b) }

/-- The bridge that `activate_topic_` creates where there is none. -/
def ensureBridge (s : State) (t : DdsTopic) : State :=
  if s.bridges.contains t then s else { s with bridges := s.bridges.set t (t, DDSBridge.create (forTopic db readers t)) }

/-- The next call of the operation. The topic has no bridge to disable before it was
activated once. -/
def callStep (s : State) : Calls → Option State
  | [] => none
  | (t, true) :: rest =>
    (bridgeStep db (ensureBridge db readers s t) t .enable).map fun s => { s with pending := rest, inside := some t }
  | (t, false) :: rest =>
    if s.bridges.contains t then
      (bridgeStep db s t .disable).map fun s => { s with pending := rest, inside := some t }
    else some { s with pending := rest }

/-- The thread in a bridge comes out of it when its walk is over. -/
def walkStep (s : State) (t : DdsTopic) : Option State :=
  (s.bridges.find t).bind fun e =>
    if e.2.walk = .idle then some { s with inside := none } else bridgeStep db s t .walk

def step (s : State) : Action → Option State
  | .operation a =>
    if s.free then
      (Router.step env s.router a).map fun r => { s with router := r, pending := Router.calls env s.router a }
    else none
  | .call => if s.inside.isNone then callStep db readers s s.pending else none
  | .walk => s.inside.bind (walkStep db s)
  | .track t id a => bridgeStep db s t (.track id a)

def create (c : Router.ReloadConfiguration) : State := { router := Router.create env c }

/-- The router sees its bridges with the flags that they have when the calls in progress are over. -/
def seen (e : DdsTopic × Bridge) : TopicBridge := ⟨e.1, e.2.target⟩

/-- What holds between any two steps, with an operation in progress or without. -/
structure Consistent (s : State) : Prop where
  walked : ∀ t e, s.bridges.find t = some e → DDSBridge.Walked db e.2
  walking : ∀ t e, s.bridges.find t = some e → e.2.walk ≠ .idle → ∃ u, s.inside = some u ∧ same t u = true
  present : ∀ u, s.inside = some u → s.bridges.contains u = true
  called : ∀ t, s.pending.foldl (Router.call t) ((s.bridges.find t).map seen) = s.router.bridges.find t

variable {env : Env} {db : ParticipantsDatabase} {readers : DdsTopic → ParticipantId → Reader} {s s' : State}

theorem bridgeStep_inv {t : DdsTopic} {a : DDSBridge.Action} (h : bridgeStep db s t a = some s') :
    ∃ e b, s.bridges.find t = some e ∧ DDSBridge.step db e.2 a = some b ∧
      s' = { s with bridges := s.bridges.set t (e.1, b) } := by
  simp only [bridgeStep, Option.bind_eq_some_iff, Option.map_eq_some_iff] at h
  obtain ⟨e, he, b, hb, rfl⟩ := h
  exact ⟨e, b, he, hb, rfl⟩

/-- One bridge is replaced; the others do not notice. -/
theorem consistent_set (h : Consistent db s) {t : DdsTopic} {e : DdsTopic × Bridge} {pending : Calls}
    {inside : Option DdsTopic} (hw : DDSBridge.Walked db e.2)
    (hwalk : e.2.walk ≠ .idle → ∃ u, inside = some u ∧ same t u = true)
    (hother : ∀ u v, s.inside = some u → same v u = true → same v t = false → inside = some u)
    (hpresent : ∀ u, inside = some u → same u t = true ∨ s.inside = some u)
    (hcalled : ∀ v, pending.foldl (Router.call v)
      (if same v t then some (seen e) else (s.bridges.find v).map seen) = s.router.bridges.find v) :
    Consistent db { s with bridges := s.bridges.set t e, pending := pending, inside := inside } := by
  refine ⟨fun v e' hv => ?_, fun v e' hv hne => ?_, fun u hu => ?_, fun v => ?_⟩
  · simp only [OrdMap.find_set] at hv
    split at hv
    · cases hv
      exact hw
    · exact h.walked v e' hv
  · simp only [OrdMap.find_set] at hv
    split at hv
    · rename_i hs
      cases hv
      obtain ⟨u, hu, htu⟩ := hwalk hne
      exact ⟨u, hu, same_trans hs htu⟩
    · rename_i hs
      obtain ⟨u, hu, hvu⟩ := h.walking v e' hv hne
      exact ⟨u, hother u v hu hvu (by simpa using hs), hvu⟩
  · rcases hpresent u hu with hs | hs
    · simp [OrdMap.contains, OrdMap.find_set, hs]
    · have := h.present u hs
      simp only [OrdMap.contains, OrdMap.find_set] at this ⊢
      split
      · rfl
      · exact this
  · rw [← hcalled v, OrdMap.find_set]
    split <;> rfl

/-- The bridge that a call goes to: the one of the topic, or for `activate_topic_` a new one. -/
theorem callStep_inv {t : DdsTopic} {v : Bool} {rest : Calls} (h : callStep db readers s ((t, v) :: rest) = some s') :
    (v = false ∧ s.bridges.find t = none ∧ s' = { s with pending := rest }) ∨
      ∃ e b, (s.bridges.find t = some e ∨ s.bridges.find t = none ∧ v = true ∧ e = (t, DDSBridge.create (forTopic db readers t))) ∧
        DDSBridge.step db e.2 (if v then .enable else .disable) = some b ∧
        s' = { s with bridges := s.bridges.set t (e.1, b), pending := rest, inside := some t } := by
  cases v with
  | true =>
    simp only [callStep, Option.map_eq_some_iff] at h
    obtain ⟨s₁, h₁, rfl⟩ := h
    obtain ⟨e, b, he, hb, rfl⟩ := bridgeStep_inv h₁
    right
    cases hf : s.bridges.find t with
    | some e' =>
      simp only [ensureBridge, OrdMap.contains, hf, Option.isSome_some, if_true] at he
      cases he
      exact ⟨e, b, .inl rfl, hb, by simp [ensureBridge, OrdMap.contains, hf]⟩
    | none =>
      have hens : ensureBridge db readers s t = { s with bridges := s.bridges.set t (t, DDSBridge.create (forTopic db readers t)) } := by
        simp [ensureBridge, OrdMap.contains, hf]
      rw [hens, OrdMap.find_set_self, Option.some.injEq] at he
      subst he
      refine ⟨_, b, .inr ⟨rfl, rfl, rfl⟩, hb, ?_⟩
      rw [hens]
      simp only [OrdMap.set_set]
  | false =>
    simp only [callStep] at h
    split at h
    · simp only [Option.map_eq_some_iff] at h
      obtain ⟨s₁, h₁, rfl⟩ := h
      obtain ⟨e, b, he, hb, rfl⟩ := bridgeStep_inv h₁
      exact .inr ⟨e, b, .inl he, hb, rfl⟩
    · rename_i hc
      cases h
      exact .inl ⟨rfl, by simpa [OrdMap.contains] using hc, rfl⟩

theorem consistent_operation (h : Consistent db s) {a : Router.Action} (hs : step env db readers s (.operation a) = some s') :
    Consistent db s' := by
  simp only [step] at hs
  split at hs
  · rename_i hfree
    simp only [State.free, Bool.and_eq_true, List.isEmpty_iff] at hfree
    simp only [Option.map_eq_some_iff] at hs
    obtain ⟨r, hr, rfl⟩ := hs
    refine ⟨h.walked, h.walking, h.present, fun t => ?_⟩
    have hcalled := h.called t
    rw [hfree.1, List.foldl_nil] at hcalled
    rw [Router.calls_step hr, hcalled]
  · cases hs

theorem consistent_call (h : Consistent db s) (hs : step env db readers s .call = some s') : Consistent db s' := by
  simp only [step] at hs
  split at hs
  · rename_i hnone
    rw [Option.isNone_iff_eq_none] at hnone
    cases hp : s.pending with
    | nil => simp [hp, callStep] at hs
    | cons c rest =>
      obtain ⟨t, v⟩ := c
      rw [hp] at hs
      have hcalled : ∀ u, rest.foldl (Router.call u) (Router.call u ((s.bridges.find u).map seen) (t, v)) =
          s.router.bridges.find u := by
        intro u
        have hu := h.called u
        rwa [hp, List.foldl_cons] at hu
      obtain ⟨rfl, hf, rfl⟩ | ⟨e, b, he, hb, rfl⟩ := callStep_inv hs
      · refine ⟨h.walked, h.walking, h.present, fun u => ?_⟩
        rw [← hcalled u]
        congr 1
        rw [Router.call]
        split
        · rename_i hu
          rw [OrdMap.find_congr hu, hf]
          rfl
        · rfl
      · obtain ⟨hidle, htarget, -⟩ := DDSBridge.step_called_target hb
        have hwalked : DDSBridge.Walked db e.2 := by
          rcases he with he | ⟨-, -, rfl⟩
          · exact h.walked t e he
          · exact DDSBridge.walked_create db _
        refine consistent_set h (DDSBridge.walked_step hwalked hb) (fun _ => ⟨t, rfl, same_refl t⟩) ?_ ?_ fun u => ?_
        · simp [hnone]
        · rintro u hu
          cases hu
          exact .inl (same_refl t)
        · rw [← hcalled u]
          congr 1
          rw [Router.call]
          split
          · rename_i hu
            rcases he with he | ⟨hf, rfl, rfl⟩
            · rw [OrdMap.find_congr hu, he, seen, htarget]
              cases v <;> rfl
            · rw [OrdMap.find_congr hu, hf, seen, htarget]
              rfl
          · rfl
  · cases hs

/-- A step inside a bridge that keeps its walk and its target is not seen by the router. -/
theorem consistent_bridgeStep (h : Consistent db s) {t : DdsTopic} {a : DDSBridge.Action}
    (hs : bridgeStep db s t a = some s')
    (hkeep : ∀ e b, s.bridges.find t = some e → DDSBridge.step db e.2 a = some b →
      b.target = e.2.target ∧ (b.walk ≠ .idle → e.2.walk ≠ .idle)) : Consistent db s' := by
  obtain ⟨e, b, he, hb, rfl⟩ := bridgeStep_inv hs
  obtain ⟨htarget, hwalk⟩ := hkeep e b he hb
  refine consistent_set h (DDSBridge.walked_step (h.walked t e he) hb) (fun hne => h.walking t e he (hwalk hne))
    (fun u v hu _ _ => hu) (fun u hu => .inr hu) fun v => ?_
  rw [← h.called v]
  congr 1
  split
  · rename_i hv
    rw [OrdMap.find_congr hv, he, seen, htarget]
    rfl
  · rfl

theorem consistent_walk (h : Consistent db s) (hs : step env db readers s .walk = some s') : Consistent db s' := by
  simp only [step, Option.bind_eq_some_iff, walkStep] at hs
  obtain ⟨u, hu, e, he, hs⟩ := hs
  split at hs
  · rename_i hidle
    cases hs
    refine ⟨h.walked, fun t e' ht hne => ?_, by simp, h.called⟩
    obtain ⟨u', hu', htu⟩ := h.walking t e' ht hne
    rw [hu, Option.some.injEq] at hu'
    rw [OrdMap.find_congr htu, ← hu', he, Option.some.injEq] at ht
    exact absurd (ht ▸ hidle) hne
  · rename_i hne
    refine consistent_bridgeStep h hs fun e' b he' hb => ?_
    rw [he, Option.some.injEq] at he'
    subst he'
    exact ⟨DDSBridge.step_walk_target hb, fun _ => hne⟩

theorem consistent_track (h : Consistent db s) {t : DdsTopic} {id : ParticipantId} {a : Track.Action}
    (hs : step env db readers s (.track t id a) = some s') : Consistent db s' := by
  refine consistent_bridgeStep h hs fun e b _ hb => ?_
  obtain ⟨-, -, w, r, -, rfl⟩ := DDSBridge.step_track_inv hb
  exact ⟨rfl, fun hne => hne⟩

theorem consistent_step {a : Action} (h : Consistent db s) (hs : step env db readers s a = some s') : Consistent db s' := by
  cases a with
  | operation a => exact consistent_operation h hs
  | call => exact consistent_call h hs
  | walk => exact consistent_walk h hs
  | track t id a => exact consistent_track h hs

section Reached

variable {c : Router.ReloadConfiguration} {as : List Action}

theorem consistent_create (env : Env) (db : ParticipantsDatabase) (c : Router.ReloadConfiguration) :
    Consistent db (create env c) := by
  refine ⟨fun t e ht => ?_, fun t e ht => ?_, fun u hu => ?_, fun t => ?_⟩
  · cases ht
  · cases ht
  · cases hu
  · rw [create, (Router.create_off env c).2]
    rfl

theorem consistent_run (hr : run (step env db readers) (create env c) as = some s) : Consistent db s :=
  run_invariant (fun _ _ _ hI hs => consistent_step hI hs) (consistent_create env db c) hr

/-- The operations of a run, in the order in which they got the mutex. -/
def operations (as : List Action) : List Router.Action :=
  as.filterMap fun
    | .operation a => some a
    | .call | .walk | .track _ _ _ => none

theorem bridgeStep_router {t : DdsTopic} {a : DDSBridge.Action} (h : bridgeStep db s t a = some s') :
    s'.router = s.router := by
  obtain ⟨e, b, -, -, rfl⟩ := bridgeStep_inv h
  rfl

/-- Only operations change what the router decides with. -/
theorem step_router {a : Action} (hs : step env db readers s a = some s') :
    run (Router.step env) s.router (operations [a]) = some s'.router := by
  cases a with
  | operation a =>
    simp only [step] at hs
    split at hs
    · simp only [Option.map_eq_some_iff] at hs
      obtain ⟨r, hr, rfl⟩ := hs
      exact run_cons_some.mpr ⟨r, hr, rfl⟩
    · cases hs
  | call =>
    simp only [step] at hs
    split at hs
    · cases hp : s.pending with
      | nil => simp [hp, callStep] at hs
      | cons c rest =>
        rw [hp] at hs
        obtain ⟨-, -, rfl⟩ | ⟨e, b, -, -, rfl⟩ := callStep_inv hs
        · rfl
        · rfl
    · cases hs
  | walk =>
    simp only [step, Option.bind_eq_some_iff, walkStep] at hs
    obtain ⟨u, -, e, -, hs⟩ := hs
    split at hs
    · cases hs
      rfl
    · exact congrArg some (bridgeStep_router hs).symm
  | track t id a => exact congrArg some (bridgeStep_router hs).symm

theorem router_run (hr : run (step env db readers) s as = some s') :
    run (Router.step env) s.router (operations as) = some s'.router := by
  induction as generalizing s with
  | nil =>
    cases hr
    rfl
  | cons a as ih =>
    obtain ⟨s₁, hs, hr⟩ := run_cons_some.mp hr
    have hsplit : operations (a :: as) = operations [a] ++ operations as := by
      rw [operations, ← List.singleton_append, List.filterMap_append]
      rfl
    rw [hsplit, run_append, step_router hs, Option.bind_some, ih hr]

/-- The operation in progress has still to call this bridge or to come out of it. -/
def State.busyWith (s : State) (t : DdsTopic) : Bool := s.pending.any (same t ·.1) || s.inside.any (same t)

theorem foldl_call_of_not_pending {t : DdsTopic} {calls : Calls} (h : calls.any (same t ·.1) = false)
    (b : Option TopicBridge) : calls.foldl (Router.call t) b = b := by
  induction calls generalizing b with
  | nil => rfl
  | cons c calls ih =>
    rw [List.any_cons, Bool.or_eq_false_iff] at h
    rw [List.foldl_cons, ih h.2, Router.call, if_neg (by simp [h.1])]

/-- A bridge that the operation in progress has nothing to do with is what the router takes it for. -/
theorem flag_of_not_busy (hr : run (step env db readers) (create env c) as = some s) {t : DdsTopic}
    {e : DdsTopic × Bridge} (he : s.bridges.find t = some e) (hb : s.busyWith t = false) :
    e.2.walk = .idle ∧ e.2.enabled = (s.router.enabled && Router.topicAllowed env s.router e.1) ∧
      s.router.knownAs t = some e.1 := by
  have h := consistent_run hr
  rw [State.busyWith, Bool.or_eq_false_iff] at hb
  have hidle : e.2.walk = .idle := by
    by_contra hne
    obtain ⟨u, hu, htu⟩ := h.walking t e he hne
    simp [hu, htu] at hb
  have hseen := h.called t
  rw [foldl_call_of_not_pending hb.1, he] at hseen
  have hflag := Router.bridge_enabled_eq (router_run hr) hseen.symm
  have hknown := Router.bridge_topic_knownAs (router_run hr) hseen.symm
  rw [seen, Bridge.target, hidle] at hflag
  exact ⟨hidle, hflag, hknown⟩

/-- What a step of the system is to one of its bridges. -/
theorem step_bridge {a : Action} (hs : step env db readers s a = some s') {u : DdsTopic} {e e' : DdsTopic × Bridge}
    (he : s.bridges.find u = some e) (he' : s'.bridges.find u = some e') :
    e'.2 = e.2 ∨ (∃ v : Bool, DDSBridge.step db e.2 (if v then .enable else .disable) = some e'.2) ∨
      DDSBridge.step db e.2 .walk = some e'.2 ∨ ∃ id x, DDSBridge.step db e.2 (.track id x) = some e'.2 := by
  have hset : ∀ {t : DdsTopic} {e₁ : DdsTopic × Bridge} {b : Bridge}, (s.bridges.find t = some e₁ ∨ s.bridges.find t = none) →
      (s.bridges.set t (e₁.1, b)).find u = some e' → e'.2 = e.2 ∨ e₁ = e ∧ e'.2 = b := by
    intro t e₁ b ht hu
    rw [OrdMap.find_set] at hu
    split at hu
    · rename_i hut
      rw [OrdMap.find_congr hut] at he
      cases hu
      rcases ht with ht | ht
      · rw [ht, Option.some.injEq] at he
        exact .inr ⟨he, rfl⟩
      · rw [ht] at he
        cases he
    · rw [he] at hu
      cases hu
      exact .inl rfl
  cases a with
  | operation a =>
    simp only [step] at hs
    split at hs
    · simp only [Option.map_eq_some_iff] at hs
      obtain ⟨r, -, rfl⟩ := hs
      rw [he] at he'
      cases he'
      exact .inl rfl
    · cases hs
  | call =>
    simp only [step] at hs
    split at hs
    · cases hp : s.pending with
      | nil => simp [hp, callStep] at hs
      | cons c rest =>
        obtain ⟨t, v⟩ := c
        rw [hp] at hs
        obtain ⟨-, -, rfl⟩ | ⟨e₁, b, he₁, hb, rfl⟩ := callStep_inv hs
        · rw [he] at he'
          cases he'
          exact .inl rfl
        · rcases hset (he₁.imp id fun h => h.1) he' with heq | ⟨rfl, rfl⟩
          · exact .inl heq
          · exact .inr (.inl ⟨v, hb⟩)
    · cases hs
  | walk =>
    simp only [step, Option.bind_eq_some_iff, walkStep] at hs
    obtain ⟨t, -, e₁, -, hs⟩ := hs
    split at hs
    · cases hs
      rw [he] at he'
      cases he'
      exact .inl rfl
    · obtain ⟨e₂, b, he₂, hb, rfl⟩ := bridgeStep_inv hs
      rcases hset (.inl he₂) he' with heq | ⟨rfl, rfl⟩
      · exact .inl heq
      · exact .inr (.inr (.inl hb))
  | track t id x =>
    obtain ⟨e₂, b, he₂, hb, rfl⟩ := bridgeStep_inv hs
    rcases hset (.inl he₂) he' with heq | ⟨rfl, rfl⟩
    · exact .inl heq
    · exact .inr (.inr (.inr ⟨id, x, hb⟩))

/-- A sample is taken, forwarded or written only while the router is on and allows the
topic of the bridge, or while an operation has still to call this bridge or to come out
of it. When no operation is in progress, all tracks of a bridge have the flag that says so. -/
theorem passes_only_while_on (hr : run (step env db readers) (create env c) as = some s) {t : DdsTopic}
    {e : DdsTopic × Bridge} (he : s.bridges.find t = some e) (hb : s.busyWith t = false) :
    (∀ id ∈ db.ids, (e.2.tracks id).control = .idle ∧
      (e.2.tracks id).enabled = (s.router.enabled && Router.topicAllowed env s.router e.1)) ∧
    ∀ a s' e', step env db readers s a = some s' → s'.bridges.find t = some e' →
      ∀ q, (e'.2.tracks q).log.passed ≠ (e.2.tracks q).log.passed →
        s.router.enabled = true ∧ Router.topicAllowed env s.router e.1 = true := by
  obtain ⟨hidle, hflag, -⟩ := flag_of_not_busy hr he hb
  have hwalked := (consistent_run hr).walked t e he
  refine ⟨fun id hid => ?_, fun a s' e' hs he' q hq => ?_⟩
  · rw [← hflag]
    exact hwalked.settled hidle hid
  · rw [← Bool.and_eq_true, ← hflag]
    by_contra hoff
    rw [Bool.not_eq_true] at hoff
    rcases step_bridge hs he he' with heq | ⟨v, hcall⟩ | hwalk | ⟨id, x, htrack⟩
    · exact hq (by rw [heq])
    · exact hq (DDSBridge.passed_called hcall q)
    · exact hq (DDSBridge.passed_walk hwalk q)
    · exact hq (DDSBridge.passed_track hwalked hidle hoff htrack q)

/-! A topic is discovered in a router that is on, and a sample of it is received. -/

def oneReader : DdsTopic → ParticipantId → Reader := fun t id => { participantId := id, guid := ⟨1, 1⟩, topic := t }

def chatDiscovered : List Action :=
  [.operation .start, .operation (.discovered (Router.readerOf Router.chat ⟨9, 7⟩)), .call] ++ List.replicate 12 .walk

def inChat (as : List Track.Action) : List Action := as.map (Action.track Router.chat ⟨"a"⟩)

/-- The sample is reported and a task is about to take it. -/
def chatReported : List Action :=
  chatDiscovered ++ inChat [.arrive DDSBridge.change, .callback 0, .callback 0, .callback 0, .callback 0, .start,
    .transmit 0 true, .transmit 0 true, .transmit 0 true]

abbrev chatStep : State → Action → Option State := step Router.plainEnv DDSBridge.twoParticipants oneReader

theorem passes_only_while_chat_is_on :
    ∃ s s' e e', run chatStep (create Router.plainEnv {}) chatReported = some s ∧
      chatStep s (.track Router.chat ⟨"a"⟩ (.transmit 0 true)) = some s' ∧
      s.bridges.find Router.chat = some e ∧ s'.bridges.find Router.chat = some e' ∧
      (e.2.tracks ⟨"a"⟩).log.taken = [] ∧ (e'.2.tracks ⟨"a"⟩).log.taken = [0] ∧
      s.router.enabled = true ∧ Router.topicAllowed Router.plainEnv s.router e.1 = true := by
  have hcheck : ((run chatStep (create Router.plainEnv {}) chatReported).bind fun s =>
      (chatStep s (.track Router.chat ⟨"a"⟩ (.transmit 0 true))).bind fun s' =>
        (s.bridges.find Router.chat).bind fun e => (s'.bridges.find Router.chat).map fun e' =>
          ((e.2.tracks ⟨"a"⟩).log.taken, (e'.2.tracks ⟨"a"⟩).log.taken, s.busyWith Router.chat)) =
      some ([], [0], false) := by decide +kernel
  simp only [Option.bind_eq_some_iff, Option.map_eq_some_iff, Prod.mk.injEq] at hcheck
  obtain ⟨s, hr, s', hs, e, he, e', he', h₁, h₂, hbusy⟩ := hcheck
  have hpassed : (e'.2.tracks ⟨"a"⟩).log.passed ≠ (e.2.tracks ⟨"a"⟩).log.passed := by
    intro h
    rw [Track.Log.passed, Track.Log.passed, h₁, h₂] at h
    simp at h
  have hon := (passes_only_while_on hr he hbusy).2 _ s' e' hs he' ⟨"a"⟩ hpassed
  exact ⟨s, s', e, e', hr, hs, he, he', h₁, h₂, hon⟩

/-! ### The end of an operation -/

/-- Steps that the operation in progress has still to make by itself, at most. -/
def State.left (db : ParticipantsDatabase) (s : State) : Nat :=
  s.pending.length * (db.stepsFor db.ids + 3) +
    match s.inside with
    | none => 0
    | some t => 1 + ((s.bridges.find t).map fun e => e.2.walkLeft db).getD 0

/-- Steps of the tasks that it may have to wait for in the bridge that it is in. -/
def State.tasksLeft (db : ParticipantsDatabase) (s : State) : Nat :=
  ((s.inside.bind s.bridges.find).map fun e => e.2.tasksLeft db).getD 0

/-- The steps of the thread that holds the mutex of the router. -/
def Action.own : Action → Bool
  | .call | .walk => true
  | .operation _ | .track _ _ _ => false

/-- What an operation needs to come to its end: its own steps and those of tasks. -/
def Action.finishing : Action → Bool
  | .call | .walk | .track _ _ (.transmit _ _) => true
  | .operation _ | .track _ _ _ => false

theorem call_left (hs : step env db readers s .call = some s') : s'.left db < s.left db := by
  simp only [step] at hs
  split at hs
  · rename_i hnone
    rw [Option.isNone_iff_eq_none] at hnone
    cases hp : s.pending with
    | nil => simp [hp, callStep] at hs
    | cons c rest =>
      obtain ⟨t, v⟩ := c
      rw [hp] at hs
      obtain ⟨-, -, rfl⟩ | ⟨e, b, -, hb, rfl⟩ := callStep_inv hs
      · simp only [State.left, hp, hnone, List.length_cons, Nat.succ_mul]
        omega
      · have hwalk := DDSBridge.called_walkLeft hb
        simp only [State.left, hp, hnone, List.length_cons, Nat.succ_mul, OrdMap.find_set_self, Option.map_some,
          Option.getD_some]
        omega
  · cases hs

theorem walk_left (hs : step env db readers s .walk = some s') : s'.left db < s.left db := by
  simp only [step, Option.bind_eq_some_iff, walkStep] at hs
  obtain ⟨u, hu, e, he, hs⟩ := hs
  split at hs
  · cases hs
    simp only [State.left, hu]
    omega
  · obtain ⟨e₁, b, he₁, hb, rfl⟩ := bridgeStep_inv hs
    rw [he, Option.some.injEq] at he₁
    subst he₁
    have hless := DDSBridge.walk_left hb
    simp only [State.left, hu, OrdMap.find_set_self, he, Option.map_some, Option.getD_some]
    omega

theorem track_left {t : DdsTopic} {id : ParticipantId} {x : Track.Action}
    (hs : step env db readers s (.track t id x) = some s') : s'.left db = s.left db := by
  obtain ⟨e, b, he, hb, rfl⟩ := bridgeStep_inv hs
  simp only [State.left]
  split
  · rfl
  · rename_i u hu
    rw [OrdMap.find_set]
    split
    · rename_i hut
      rw [OrdMap.find_congr hut, he, Option.map_some, Option.map_some, DDSBridge.track_walkLeft hb]
    · rfl

/-- While an operation holds the mutex, one of its own steps can be taken, or a step of
the task that it waits for brings that task nearer to its end. -/
theorem operation_goes_on (env : Env) (readers : DdsTopic → ParticipantId → Reader) (h : Consistent db s)
    (hbusy : s.free = false) :
    ∃ a s', a.finishing = true ∧ step env db readers s a = some s' ∧
      (s'.left db < s.left db ∨ s'.left db = s.left db ∧ s'.tasksLeft db < s.tasksLeft db) := by
  cases hin : s.inside with
  | none =>
    cases hp : s.pending with
    | nil => simp [State.free, hin, hp] at hbusy
    | cons c rest =>
      have hidle : ∀ t e, s.bridges.find t = some e → e.2.walk = .idle := by
        intro t e he
        by_contra hne
        obtain ⟨u, hu, -⟩ := h.walking t e he hne
        simp [hin] at hu
      obtain ⟨s', hs⟩ : ∃ s', step env db readers s .call = some s' := by
        obtain ⟨t, v⟩ := c
        simp only [step, hin, hp, Option.isNone_none, if_true]
        cases hf : s.bridges.find t with
        | none =>
          cases v with
          | true =>
            have hens : ensureBridge db readers s t =
                { s with bridges := s.bridges.set t (t, DDSBridge.create (forTopic db readers t)) } := by
              simp [ensureBridge, OrdMap.contains, hf]
            rw [callStep, hens]
            simp only [bridgeStep, OrdMap.find_set_self, Option.bind_some, DDSBridge.step]
            exact ⟨_, rfl⟩
          | false => exact ⟨_, by simp only [callStep, OrdMap.contains, hf, Option.isSome_none]; rfl⟩
        | some e =>
          have hw := hidle t e hf
          cases v with
          | true =>
            have hens : ensureBridge db readers s t = s := by simp [ensureBridge, OrdMap.contains, hf]
            rw [callStep, hens]
            simp only [bridgeStep, hf, Option.bind_some, DDSBridge.step, hw, if_true]
            exact ⟨_, rfl⟩
          | false =>
            simp only [callStep, OrdMap.contains, hf, Option.isSome_some, if_true, bridgeStep, Option.bind_some,
              DDSBridge.step, hw]
            exact ⟨_, rfl⟩
      exact ⟨.call, s', rfl, hs, .inl (call_left hs)⟩
  | some u =>
    obtain ⟨e, he⟩ := Option.isSome_iff_exists.mp (h.present u hin)
    by_cases hw : e.2.walk = .idle
    · have hs : step env db readers s .walk = some { s with inside := none } := by
        simp only [step, hin, Option.bind_some, walkStep, he, hw, if_true]
      exact ⟨.walk, _, rfl, hs, .inl (walk_left hs)⟩
    · rcases DDSBridge.walk_goes_on (h.walked u e he) hw with ⟨b, hb⟩ | ⟨id, i, b, hb, hless⟩
      · have hs : step env db readers s .walk = some { s with bridges := s.bridges.set u (e.1, b) } := by
          simp only [step, hin, Option.bind_some, walkStep, he, hw, if_false, bridgeStep, hb, Option.map_some]
        exact ⟨.walk, _, rfl, hs, .inl (walk_left hs)⟩
      · have hs : step env db readers s (.track u id (.transmit i true)) =
            some { s with bridges := s.bridges.set u (e.1, b) } := by
          simp only [step, bridgeStep, he, Option.bind_some, hb, Option.map_some]
        refine ⟨.track u id (.transmit i true), _, rfl, hs, .inr ⟨track_left hs, ?_⟩⟩
        simpa [State.tasksLeft, hin, OrdMap.find_set_self, he] using hless

/-- The operation spends its own steps, and nobody else can add to them. -/
theorem own_steps_bounded {bs : List Action} (hr : run (step env db readers) s bs = some s')
    (hno : ∀ a ∈ bs, ∀ x, a ≠ .operation x) : bs.countP Action.own + s'.left db ≤ s.left db := by
  induction bs generalizing s with
  | nil =>
    cases hr
    simp
  | cons a bs ih =>
    obtain ⟨s₁, hs, hr⟩ := run_cons_some.mp hr
    have hrest := ih hr fun b hb => hno b (List.mem_cons_of_mem a hb)
    cases a with
    | operation x => exact absurd rfl (hno _ List.mem_cons_self x)
    | call =>
      have := call_left hs
      rw [List.countP_cons_of_pos rfl]
      omega
    | walk =>
      have := walk_left hs
      rw [List.countP_cons_of_pos rfl]
      omega
    | track t id x =>
      rw [List.countP_cons_of_neg (by simp [Action.own]), ← track_left hs]
      exact hrest

theorem can_finish (env : Env) (readers : DdsTopic → ParticipantId → Reader) (h : Consistent db s) :
    ∃ bs s', run (step env db readers) s bs = some s' ∧ s'.free = true ∧ ∀ a ∈ bs, a.finishing = true := by
  -- on the own steps that are left, then on those of the tasks
  have hwf : WellFounded (Prod.Lex (· < ·) (· < ·) : Nat × Nat → Nat × Nat → Prop) := WellFoundedRelation.wf
  induction hl : (s.left db, s.tasksLeft db) using hwf.induction generalizing s with
  | _ m ih =>
  cases hfree : s.free with
  | true => exact ⟨[], s, rfl, hfree, by simp⟩
  | false =>
    obtain ⟨a, s₁, ha, hs, hless⟩ := operation_goes_on env readers h hfree
    have hlex : Prod.Lex (· < ·) (· < ·) (s₁.left db, s₁.tasksLeft db) m := by
      rw [← hl]
      rcases hless with hless | ⟨heq, hless⟩
      · exact .left _ _ hless
      · rw [heq]
        exact .right _ hless
    obtain ⟨bs, s', hr, hfree', hbs⟩ := ih _ hlex (consistent_step h hs) rfl
    refine ⟨a :: bs, s', ?_, hfree', ?_⟩
    · exact run_cons_some.mpr ⟨s₁, hs, hr⟩
    · simpa [ha] using hbs

theorem operations_finishing {bs : List Action} (h : ∀ a ∈ bs, a.finishing = true) : operations bs = [] := by
  rw [operations, List.filterMap_eq_nil_iff]
  intro a ha
  cases a with
  | operation x => cases h _ ha
  | call | walk | track => rfl

/-- No operation of the router stays in its calls of topic bridges for ever: whatever has
happened, its own steps and those of running tasks can bring them to their end. The
number of its own steps is bounded from the moment that it begins, and no thread can
raise that bound. -/
theorem operations_end (hr : run (step env db readers) (create env c) as = some s) :
    (∃ bs s', run (step env db readers) s bs = some s' ∧ s'.free = true ∧ s'.router = s.router ∧
      ∀ a ∈ bs, a.finishing = true) ∧
    ∀ bs s', run (step env db readers) s bs = some s' → (∀ a ∈ bs, ∀ x, a ≠ .operation x) →
      bs.countP Action.own + s'.left db ≤ s.left db := by
  refine ⟨?_, fun bs s' hbs hno => own_steps_bounded hbs hno⟩
  obtain ⟨bs, s', hbs, hfree, hfin⟩ := can_finish env readers (consistent_run hr)
  refine ⟨bs, s', hbs, hfree, ?_, hfin⟩
  have hrouter := router_run hbs
  rw [operations_finishing hfin] at hrouter
  exact (Option.some.inj hrouter).symm

/-- The router is stopped while the task has the sample in hand, and `disable` waits for it. -/
def stoppedUnderSample : List Action :=
  chatReported ++ inChat [.transmit 0 true] ++ [.operation .stop, .call, .walk, .walk]

theorem stop_ends_under_sample :
    ∃ s, run chatStep (create Router.plainEnv {}) stoppedUnderSample = some s ∧ chatStep s .walk = none ∧
      s.free = false ∧ ∃ bs s', run chatStep s bs = some s' ∧ s'.free = true ∧ s'.router.enabled = false := by
  have hcheck : (run chatStep (create Router.plainEnv {}) stoppedUnderSample).map (fun s =>
      ((chatStep s .walk).isNone, s.free, s.router.enabled)) = some (true, false, false) := by decide +kernel
  obtain ⟨s, hr, hs⟩ := Option.map_eq_some_iff.mp hcheck
  simp only [Prod.mk.injEq, Option.isNone_iff_eq_none] at hs
  obtain ⟨bs, s', hbs, hfree, hrouter, -⟩ := (operations_end hr).1
  exact ⟨s, hr, hs.1, hs.2.1, bs, s', hbs, hfree, by rw [hrouter, hs.2.2]⟩

/-! ### While the router is off -/

/-- An operation of a router that stays off makes no calls. -/
theorem calls_off {r r' : Router.State} {a : Router.Action} (hoff : r.enabled = false) (ha : a ≠ .start)
    (hs : Router.step env r a = some r') : Router.calls env r a = [] ∧ r'.enabled = false := by
  cases a with
  | start => exact absurd rfl ha
  | stop =>
    cases hs
    simp [Router.calls, Router.stop, hoff]
  | reload c =>
    simp only [Router.step, Option.map_eq_some_iff] at hs
    obtain ⟨⟨code, r₁⟩, hr, rfl⟩ := hs
    obtain ⟨-, -, rfl⟩ | ⟨-, hon, -⟩ | ⟨-, hon, -⟩ := Router.reload_cases hr
    · exact ⟨by simp [Router.calls, Router.reloadCalls, hoff], hoff⟩
    · simp [hoff] at hon
    · simp [hoff] at hon
  | discovered e =>
    refine ⟨by simp [Router.calls, Router.discoveredTopicCalls, hoff], ?_⟩
    cases Router.step_move hs with
    | keep => exact hoff
    | topic => exact (Router.discoveredTopic_off env e.topic hoff).1
    | server => rw [(Router.discoveredService_sameTopics r _ _ _).enabled, hoff]
  | removed e =>
    refine ⟨rfl, ?_⟩
    cases Router.step_move hs with
    | keep => exact hoff
    | serverRemoved => rw [Router.removedService, (Router.updateBridge_sameTopics r _ _).enabled, hoff]

/-- The bridges are the same ones and have passed nothing on. -/
def SamePassed (s s' : State) : Prop :=
  ∀ t, (s.bridges.find t = none ∧ s'.bridges.find t = none) ∨
    ∃ e e', s.bridges.find t = some e ∧ s'.bridges.find t = some e' ∧
      ∀ q, (e'.2.tracks q).log.passed = (e.2.tracks q).log.passed

theorem SamePassed.of_eq (h : s'.bridges = s.bridges) : SamePassed s s' := by
  intro t
  rw [h]
  cases hf : s.bridges.find t with
  | none => exact .inl ⟨rfl, rfl⟩
  | some e => exact .inr ⟨e, e, rfl, rfl, fun _ => rfl⟩

theorem SamePassed.trans {s₁ s₂ s₃ : State} (h : SamePassed s₁ s₂) (h' : SamePassed s₂ s₃) : SamePassed s₁ s₃ := by
  intro t
  rcases h t with ⟨h₁, h₂⟩ | ⟨e₁, e₂, h₁, h₂, hp⟩
  · rcases h' t with ⟨-, h₃⟩ | ⟨e, -, h₂', -⟩
    · exact .inl ⟨h₁, h₃⟩
    · rw [h₂] at h₂'
      cases h₂'
  · rcases h' t with ⟨h₂', -⟩ | ⟨e, e₃, h₂', h₃, hp'⟩
    · rw [h₂] at h₂'
      cases h₂'
    · rw [h₂] at h₂'
      cases h₂'
      exact .inr ⟨e₁, e₃, h₁, h₃, fun q => (hp' q).trans (hp q)⟩

theorem step_off {a : Action} (hr : run (step env db readers) (create env c) as = some s)
    (hoff : s.router.enabled = false) (hfree : s.free = true) (ha : a ≠ .operation .start)
    (hs : step env db readers s a = some s') :
    s'.router.enabled = false ∧ s'.free = true ∧ SamePassed s s' := by
  have hmutex := hfree
  simp only [State.free, Bool.and_eq_true, List.isEmpty_iff, Option.isNone_iff_eq_none] at hmutex
  cases a with
  | operation x =>
    simp only [step, hfree, if_true, Option.map_eq_some_iff] at hs
    obtain ⟨r, hx, rfl⟩ := hs
    obtain ⟨hcalls, hr'⟩ := calls_off hoff (fun h => ha (by rw [h])) hx
    exact ⟨hr', by simp [State.free, hcalls, hmutex.2], .of_eq rfl⟩
  | call => simp [step, hmutex.1, hmutex.2, callStep] at hs
  | walk => simp [step, hmutex.2] at hs
  | track t id x =>
    obtain ⟨e, b, he, hb, rfl⟩ := bridgeStep_inv hs
    refine ⟨hoff, hfree, fun u => ?_⟩
    simp only [OrdMap.find_set]
    split
    · rename_i hut
      rw [OrdMap.find_congr hut, he]
      obtain ⟨hidle, hflag, -⟩ := flag_of_not_busy hr he (by simp [State.busyWith, hmutex.1, hmutex.2])
      rw [hoff, Bool.false_and] at hflag
      exact .inr ⟨e, _, rfl, rfl, DDSBridge.passed_track ((consistent_run hr).walked t e he) hidle hflag hb⟩
    · cases hf : s.bridges.find u with
      | none => exact .inl ⟨rfl, rfl⟩
      | some e' => exact .inr ⟨e', e', rfl, rfl, fun _ => rfl⟩

/-- Between the return of `stop` and the next `start` no bridge is created and nothing is
taken, forwarded or written, whatever is discovered, reloaded or received. -/
theorem stopped_passes_nothing {bs : List Action} (hr : run (step env db readers) (create env c) as = some s)
    (hoff : s.router.enabled = false) (hfree : s.free = true) (hbs : run (step env db readers) s bs = some s')
    (hstart : .operation .start ∉ bs) : SamePassed s s' := by
  induction bs generalizing as s with
  | nil =>
    cases hbs
    exact .of_eq rfl
  | cons a bs ih =>
    obtain ⟨s₁, hs, hbs⟩ := run_cons_some.mp hbs
    rw [List.mem_cons, not_or] at hstart
    obtain ⟨hoff₁, hfree₁, hsame⟩ := step_off hr hoff hfree (Ne.symm hstart.1) hs
    exact hsame.trans (ih ((run_concat hr).trans hs) hoff₁ hfree₁ hbs hstart.2)

/-- The sample is written, the router is stopped, and another sample is received and a
reader discovered while it is off. -/
def chatStopped : List Action :=
  chatReported ++ inChat (List.replicate 8 (.transmit 0 true)) ++ [.operation .stop, .call] ++ List.replicate 16 .walk

def whileStopped : List Action :=
  .operation (.discovered (Router.readerOf { Router.chat with topicName := "news" } ⟨9, 8⟩)) ::
    inChat [.arrive DDSBridge.change, .callback 0]

theorem stopped_passes_nothing_of_chat :
    ∃ s s' e e', run chatStep (create Router.plainEnv {}) chatStopped = some s ∧ run chatStep s whileStopped = some s' ∧
      s.bridges.find Router.chat = some e ∧ s'.bridges.find Router.chat = some e' ∧
      (e.2.tracks ⟨"a"⟩).log.writes.length = 1 ∧
      (e'.2.tracks ⟨"a"⟩).log.passed = (e.2.tracks ⟨"a"⟩).log.passed := by
  have hcheck : ((run chatStep (create Router.plainEnv {}) chatStopped).bind fun s =>
      (run chatStep s whileStopped).bind fun _ => (s.bridges.find Router.chat).map fun e =>
        ((e.2.tracks ⟨"a"⟩).log.writes.length, s.router.enabled, s.free)) = some (1, false, true) := by decide +kernel
  simp only [Option.bind_eq_some_iff, Option.map_eq_some_iff, Prod.mk.injEq] at hcheck
  obtain ⟨s, hr, s', hbs, e, he, hw, hoff, hfree⟩ := hcheck
  rcases stopped_passes_nothing hr hoff hfree hbs (by decide) Router.chat with ⟨hnone, -⟩ | ⟨e₁, e', he₁, he', hp⟩
  · rw [he] at hnone
    cases hnone
  · rw [he] at he₁
    cases he₁
    exact ⟨s, s', e, e', hr, hbs, he, he', hw, hp ⟨"a"⟩⟩

end Reached

end DDSRouter.RouterBridges
