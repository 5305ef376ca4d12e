import DDSRouter.ServiceTopics

/-!
# The bridge of a service

The bridges are kept by service name, and a bridge is created for the first
server of a service that is discovered. Where the words of a request topic stand
at the two ends of the name only, the service name says the topic name; the type
is not part of it, and servers that differ in the type share a bridge.
-/
namespace DDSRouter

open WeakOrder Runs

namespace RPCTopic

/-- The name is a service name between the two words, with none of the words inside. -/
def PlainlyNamed (t : DdsTopic) : Prop :=
  ∃ n, t.topicName = "rq/" ++ n ++ "Request" ∧ ¬ Occurs "rq/" n ∧ ¬ Occurs "Request" n

theorem serviceName_of_plainlyNamed {t : DdsTopic} {n : String} (hreq : isRequestTopic t = true)
    (hn : t.topicName = "rq/" ++ n ++ "Request") (hrq : ¬ Occurs "rq/" n) (hRequest : ¬ Occurs "Request" n) :
    (ofTopic t).serviceName = n := by
  rw [ofTopic, if_pos hreq]
  have h := erased_name (p := "rq/") (s := "Request") (by decide) (by decide) (by decide) (by decide) (by decide)
    hrq hRequest
  rwa [← hn] at h

/-- Services with plain names are the same exactly if the names of their topics are. -/
theorem same_ofTopic_iff {t₁ t₂ : DdsTopic} (h₁ : isRequestTopic t₁ = true) (h₂ : isRequestTopic t₂ = true)
    (hp₁ : PlainlyNamed t₁) (hp₂ : PlainlyNamed t₂) :
    same (ofTopic t₁) (ofTopic t₂) = true ↔ t₁.topicName = t₂.topicName := by
  obtain ⟨n₁, hn₁, hrq₁, hRequest₁⟩ := hp₁
  obtain ⟨n₂, hn₂, hrq₂, hRequest₂⟩ := hp₂
  rw [same_iff_serviceName, serviceName_of_plainlyNamed h₁ hn₁ hrq₁ hRequest₁,
    serviceName_of_plainlyNamed h₂ hn₂ hrq₂ hRequest₂, hn₁, hn₂]
  constructor
  · intro h
    rw [h]
  · intro h
    rw [← String.toList_inj] at h ⊢
    simpa using h

theorem requestTopic_ofTopic {t : DdsTopic} (h : isRequestTopic t = true) : (ofTopic t).requestTopic = t := by
  rw [ofTopic, if_pos h]

end RPCTopic

/-! ### The topic of a bridge -/

namespace Router

variable {env : Env}

/-- The topic that the bridge of the service was created for. -/
def State.bridgeTopic (s : State) (t : RPCTopic) : Option RPCTopic := (s.rpcBridges.find t).map RPCBridge.topic

/-- A discovered server finds the bridge of its service or has it created. -/
theorem bridgeTopic_discoveredService (s : State) (t t' : RPCTopic) (id : ParticipantId) (g : GuidPrefix) :
    (discoveredService env s t id g).bridgeTopic t' =
      if same t' t then some ((s.bridgeTopic t).getD t) else s.bridgeTopic t' := by
  have hlast : SameBridges RPCBridge.topic (updateBridge (ensureService env s t) t fun b => b.discoveredService id g)
      (discoveredService env s t id g) := enableIfActive_sameBridges (topic_enableBridge env) _ t
  have hupdate := updateBridge_sameBridges (g := fun b => b.discoveredService id g)
    (fun b => RPCBridge.topic_discoveredService b id g) (ensureService env s t) t
  have hkept : (discoveredService env s t id g).bridgeTopic t' = (ensureService env s t).bridgeTopic t' :=
    (hupdate.trans hlast) t'
  rw [hkept]
  unfold State.bridgeTopic ensureService
  cases hf : s.rpcBridges.find t with
  | some b =>
    simp only [OrdMap.contains, hf, Option.isSome_some, if_true, Option.map_some, Option.getD_some]
    split
    · rename_i hs
      rw [OrdMap.find_congr hs, hf]
      rfl
    · rfl
  | none =>
    simp only [OrdMap.contains, hf, Option.isSome_none, Bool.false_eq_true, if_false, createNewService, OrdMap.find_set,
      Option.map_none, Option.getD_none]
    split <;> rfl

/-- The router was told of a server by this reader on a request topic. -/
def Announced (past : List Action) (e : Endpoint) : Prop :=
  .discovered e ∈ past ∧ e.isReader = true ∧ RPCTopic.isRequestTopic e.topic = true

/-- Every server has the bridge of its service, and every bridge was created for one of
the servers of its service. -/
structure Bridged (past : List Action) (s : State) : Prop where
  found : ∀ e, Announced past e → s.bridgeTopic (RPCTopic.ofTopic e.topic) ≠ none
  origin : ∀ t q, s.bridgeTopic t = some q →
    same q t = true ∧ ∃ e, Announced past e ∧ q = RPCTopic.ofTopic e.topic

theorem Announced.mono {past : List Action} {e : Endpoint} (h : Announced past e) (a : Action) :
    Announced (past ++ [a]) e := ⟨List.mem_append_left _ h.1, h.2⟩

/-- A step that is no discovery of a server and keeps the bridges. -/
theorem bridged_of_sameBridges {past : List Action} {s s' : State} {a : Action} (h : Bridged past s)
    (hsame : SameBridges RPCBridge.topic s s') (ha : ∀ e, Announced (past ++ [a]) e → Announced past e) :
    Bridged (past ++ [a]) s' := by
  refine ⟨fun e he => ?_, fun t q hq => ?_⟩
  · rw [State.bridgeTopic, hsame]
    exact h.found e (ha e he)
  · rw [State.bridgeTopic, hsame] at hq
    obtain ⟨hqt, e, he, rfl⟩ := h.origin t q hq
    exact ⟨hqt, e, he.mono a, rfl⟩

/-- What was announced before, where the last action is no discovery of a server. -/
theorem announced_of_concat {past : List Action} {a : Action} {e : Endpoint} (h : Announced (past ++ [a]) e)
    (ha : ∀ e', a = .discovered e' → (e'.isReader && RPCTopic.isRequestTopic e'.topic) = false) :
    Announced past e := by
  obtain ⟨hmem, hr, hq⟩ := h
  rw [List.mem_append, List.mem_singleton] at hmem
  rcases hmem with hmem | rfl
  · exact ⟨hmem, hr, hq⟩
  · have hnot := ha e rfl
    simp [hr, hq] at hnot

theorem bridged_discovered {past : List Action} {s : State} {e : Endpoint} (h : Bridged past s) :
    Bridged (past ++ [.discovered e]) (discoveredEndpoint env s e) := by
  cases hserver : e.isReader && RPCTopic.isRequestTopic e.topic with
  | false =>
    refine bridged_of_sameBridges h ?_ fun e' he' => announced_of_concat he' ?_
    · unfold discoveredEndpoint
      split
      · rename_i hr
        split
        · exact sameBridges_of_rest (discoveredTopic_rest s e.topic)
        · split
          · rename_i hse
            have hw : e.isWriter = false := by
              simp only [Endpoint.isReader, Endpoint.isWriter, decide_eq_true_eq, decide_eq_false_iff_not] at hr ⊢
              simp [hr]
            simp [Endpoint.isServerEndpoint, hserver, hw] at hse
          · exact fun _ => rfl
      · exact fun _ => rfl
    · intro e₁ he₁
      cases he₁
      exact hserver
  | true =>
    have hse : e.isServerEndpoint = true := by simp [Endpoint.isServerEndpoint, hserver]
    rw [Bool.and_eq_true] at hserver
    obtain ⟨hr, hq⟩ := hserver
    have hnew : Announced (past ++ [.discovered e]) e := ⟨by simp, hr, hq⟩
    have hstep : ∀ t, (discoveredEndpoint env s e).bridgeTopic t = _ := fun t => by
      simp only [discoveredEndpoint, hr, if_true, isServiceTopic_of_isServerEndpoint hse, Bool.not_true,
        Bool.false_eq_true, if_false, hse]
      exact bridgeTopic_discoveredService s (RPCTopic.ofTopic e.topic) t _ _
    refine ⟨fun e' he' => ?_, fun t q hq => ?_⟩
    · rw [hstep]
      split
      · simp
      · rename_i hne
        obtain ⟨hmem, hr', hq'⟩ := he'
        rw [List.mem_append, List.mem_singleton, Action.discovered.injEq] at hmem
        rcases hmem with hmem | rfl
        · exact h.found e' ⟨hmem, hr', hq'⟩
        · simp at hne
    · rw [hstep] at hq
      split at hq
      · rename_i hs
        rw [Option.some.injEq] at hq
        subst hq
        cases hf : s.bridgeTopic (RPCTopic.ofTopic e.topic) with
        | none => exact ⟨same_symm hs, e, hnew, rfl⟩
        | some q =>
          obtain ⟨hqt, e', he', rfl⟩ := h.origin _ _ hf
          exact ⟨same_trans hqt (same_symm hs), e', he'.mono _, rfl⟩
      · obtain ⟨hqt, e', he', rfl⟩ := h.origin t q hq
        exact ⟨hqt, e', he'.mono _, rfl⟩

theorem bridged_step {past : List Action} {s s' : State} {a : Action} (h : Bridged past s)
    (hs : step env s a = some s') : Bridged (past ++ [a]) s' := by
  have hcontrol : a.isControl = true → Bridged (past ++ [a]) s' := by
    intro ha
    refine bridged_of_sameBridges h (control_sameBridges (topic_enableBridge env) (fun _ => rfl) ha hs)
      fun e he => announced_of_concat he ?_
    rintro e' rfl
    cases ha
  cases a with
  | start => exact hcontrol rfl
  | stop => exact hcontrol rfl
  | reload c => exact hcontrol rfl
  | discovered e =>
    cases hs
    exact bridged_discovered h
  | removed e =>
    refine bridged_of_sameBridges h ?_ fun e he => announced_of_concat he (by simp)
    cases step_move hs with
    | keep => exact fun _ => rfl
    | serverRemoved => exact updateBridge_sameBridges (fun b => RPCBridge.topic_removedService b _ _) s _

theorem bridged_create (env : Env) (c : ReloadConfiguration) : Bridged [] (create env c) := by
  have hrest : (create env c).rest =
      State.rest { allowedTopics := AllowedTopicList.create c.allowlist c.blocklist } :=
    foldl_rest discoveredTopic_rest _ _
  have hnone : ∀ t, (create env c).bridgeTopic t = none := fun t => sameBridges_of_rest (f := RPCBridge.topic) hrest t
  refine ⟨fun e he => absurd he.1 List.not_mem_nil, fun t q hq => ?_⟩
  simp [hnone] at hq

theorem bridged_run {c : ReloadConfiguration} {as : List Action} {s : State}
    (hr : run (step env) (create env c) as = some s) : Bridged as s := by
  have h := run_history (J := Bridged) (fun _ _ _ _ h hs => bridged_step h hs) (bridged_create env c) hr
  simpa using h

/-- Request topics with plain names that are equivalent have one name. So in a run where
all servers have such names, each finds a bridge that was created for a server with its
topic name. -/
theorem plain_services_apart (env : Env) :
    (∀ t₁ t₂ : DdsTopic, RPCTopic.isRequestTopic t₁ = true → RPCTopic.isRequestTopic t₂ = true →
      RPCTopic.PlainlyNamed t₁ → RPCTopic.PlainlyNamed t₂ →
      lt (RPCTopic.ofTopic t₁) (RPCTopic.ofTopic t₂) = false → lt (RPCTopic.ofTopic t₂) (RPCTopic.ofTopic t₁) = false →
      t₁.topicName = t₂.topicName) ∧
    ∀ (c : ReloadConfiguration) (as : List Action) (s : State),
      (∀ e, Announced as e → RPCTopic.PlainlyNamed e.topic) → run (step env) (create env c) as = some s →
      ∀ e, Announced as e → ∃ b e', s.rpcBridges.find (RPCTopic.ofTopic e.topic) = some b ∧ Announced as e' ∧
        b.topic.requestTopic = e'.topic ∧ e'.topic.topicName = e.topic.topicName := by
  constructor
  · intro t₁ t₂ h₁ h₂ hp₁ hp₂ hlt hgt
    exact (RPCTopic.same_ofTopic_iff h₁ h₂ hp₁ hp₂).mp (same_iff.mpr ⟨hlt, hgt⟩)
  · intro c as s hplain hr e he
    have hbridged := bridged_run hr
    obtain ⟨q, hq⟩ := Option.ne_none_iff_exists'.mp (hbridged.found e he)
    obtain ⟨hqe, e', he', rfl⟩ := hbridged.origin _ _ hq
    obtain ⟨b, hb, hbt⟩ := Option.map_eq_some_iff.mp hq
    refine ⟨b, e', hb, he', ?_, ?_⟩
    · rw [hbt, RPCTopic.requestTopic_ofTopic he'.2.2]
    · exact (RPCTopic.same_ofTopic_iff he'.2.2 he.2.2 (hplain e' he') (hplain e he)).mp hqe

/-! Two servers of one service name and two types. -/

def addTwoFloats : DdsTopic := { topicName := "rq/add_two_intsRequest", typeName := "AddTwoFloats_Request_" }

def twoTypes : List Action :=
  [.discovered (readerOf addTwoInts ⟨2, 1⟩), .discovered (readerOf addTwoFloats ⟨3, 1⟩)]

theorem addTwoInts_plainlyNamed : RPCTopic.PlainlyNamed addTwoInts :=
  ⟨"add_two_ints", by decide, by decide, by decide⟩

theorem addTwoFloats_bridged_by_name :
    ∃ s b, run (step plainEnv) (create plainEnv {}) twoTypes = some s ∧
      s.rpcBridges.find (RPCTopic.ofTopic addTwoFloats) = some b ∧
      b.topic.requestTopic.topicName = addTwoFloats.topicName := by
  have hplain : ∀ e, Announced twoTypes e → RPCTopic.PlainlyNamed e.topic := by
    rintro e ⟨he, -⟩
    simp only [twoTypes, List.mem_cons, Action.discovered.injEq, List.not_mem_nil, or_false] at he
    rcases he with rfl | rfl
    · exact addTwoInts_plainlyNamed
    · exact addTwoInts_plainlyNamed
  obtain ⟨s, hs⟩ : ∃ s, run (step plainEnv) (create plainEnv {}) twoTypes = some s := ⟨_, rfl⟩
  obtain ⟨b, e', hb, -, hbt, hname⟩ := (plain_services_apart plainEnv).2 {} twoTypes s hplain hs
    (readerOf addTwoFloats ⟨3, 1⟩) ⟨by simp [twoTypes], by decide, by decide⟩
  exact ⟨s, b, hs, hb, by rw [hbt]; exact hname⟩

theorem addTwoFloats_finds_other_type :
    (¬ ∀ t₁ t₂ : DdsTopic, RPCTopic.isRequestTopic t₁ = true → RPCTopic.isRequestTopic t₂ = true →
      lt (RPCTopic.ofTopic t₁) (RPCTopic.ofTopic t₂) = false → lt (RPCTopic.ofTopic t₂) (RPCTopic.ofTopic t₁) = false →
      t₁.topicName = t₂.topicName ∧ t₁.typeName = t₂.typeName) ∧
    ¬ ∀ (env : Env) (c : ReloadConfiguration) (as : List Action) (s : State),
      run (step env) (create env c) as = some s → ∀ e, Announced as e → ∀ b,
        s.rpcBridges.find (RPCTopic.ofTopic e.topic) = some b → b.topic.requestTopic = e.topic := by
  constructor
  · intro h
    have htype := (h addTwoInts addTwoFloats (by decide) (by decide) (by decide) (by decide)).2
    exact absurd htype (by decide)
  · intro h
    have hrun : ∃ s b, run (step plainEnv) (create plainEnv {}) twoTypes = some s ∧
        s.rpcBridges.find (RPCTopic.ofTopic addTwoFloats) = some b ∧ b.topic.requestTopic ≠ addTwoFloats :=
      ⟨_, _, rfl, rfl, by decide⟩
    obtain ⟨s, b, hrun, hb, hne⟩ := hrun
    exact hne (h plainEnv {} twoTypes s hrun (readerOf addTwoFloats ⟨3, 1⟩)
      ⟨by simp [twoTypes], by decide, by decide⟩ b hb)

end Router

end DDSRouter
