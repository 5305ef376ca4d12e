import DDSRouter.BuiltinBridges
import DDSRouter.Lib.Simulation

/-!
# The topics that a router knows

A topic is known under its name and type from the first time that it is named: as a
builtin topic of the configuration, as one of a reload that takes effect, or by a
reader that is discovered in it. Whatever comes later under the same name and type
is passed over, with its key and its QoS.
-/
namespace DDSRouter.Router

open Runs WeakOrder

variable {env : Env} {s s' : State}

/-- The topics that an action names. -/
def introduced (s : State) : Action → List DdsTopic
  | .discovered e => if e.isReader && !RPCTopic.isServiceTopic e.topic then [e.topic] else []
  | .reload c => if s.enabled then c.builtinTopics else []
  | .start | .stop | .removed _ => []

/-- The topic of the router with this name and type. -/
def State.knownAs (s : State) (t : DdsTopic) : Option DdsTopic := s.currentTopics.keyOf t

theorem knownAs_discoveredTopic (env : Env) (s : State) (u t : DdsTopic) :
    (discoveredTopic env s u).knownAs t = (s.knownAs t).or (if same t u then some u else none) := by
  unfold discoveredTopic
  split
  · rename_i hc
    have hsome : same t u = true → (s.currentTopics.keyOf t).isSome = true := by
      intro hs
      rw [OrdMap.isSome_keyOf, OrdMap.contains, OrdMap.find_congr hs]
      exact hc
    unfold State.knownAs
    split
    · rename_i hs
      rw [Option.or_of_isSome (hsome hs)]
    · rw [Option.or_none]
  · rename_i hc
    have hmem : u ∈ (s.currentTopics.set u false).keys :=
      OrdMap.mem_keys_set_iff.mpr (.inr ⟨rfl, by simpa using hc⟩)
    have hset : (s.currentTopics.set u false).keyOf t = (s.knownAs t).or (if same t u then some u else none) :=
      OrdMap.keyOf_set s.currentTopics u t false
    simp only
    split
    · rw [State.knownAs, OrdMap.keyOf_congr ((activateTopic_switched _ u).currentKeys hmem), hset]
    · exact hset

theorem knownAs_foldl_discoveredTopic (env : Env) (ts : List DdsTopic) (s : State) (t : DdsTopic) :
    (ts.foldl (discoveredTopic env) s).knownAs t = (s.knownAs t).or (ts.find? (same t)) := by
  induction ts generalizing s with
  | nil => simp
  | cons u ts ih =>
    rw [List.foldl_cons, ih, knownAs_discoveredTopic, Option.or_assoc, List.find?_cons]
    cases same t u <;> rfl

theorem knownAs_sameTopics (h : SameTopics s s') (t : DdsTopic) : s'.knownAs t = s.knownAs t := by
  rw [State.knownAs, h.topics, State.knownAs]

/-- The loops over the topics do not add any. -/
theorem knownAs_settled {want : AllowedTopicList → DdsTopic → Bool → Bool} {f : State → DdsTopic → State}
    (hf : Settles want f) (hs : InSync s) (t : DdsTopic) : (s.currentTopics.keys.foldl f s).knownAs t = s.knownAs t :=
  OrdMap.keyOf_congr (settles_all hf hs).1.keys t

theorem knownAs_started (h : TopicsActive env s) (t : DdsTopic) : (s.started env).knownAs t = s.knownAs t := by
  rw [State.started, knownAs_sameTopics (foldl_sameTopics (startService_sameTopics env) _ _)]
  exact knownAs_settled (s := { s with enabled := true }) (settles_activateIfAllowed env)
    ⟨h.inSync.active, h.inSync.known⟩ t

theorem knownAs_stopped (h : TopicsActive env s) (t : DdsTopic) : s.stopped.knownAs t = s.knownAs t :=
  knownAs_settled (s := { s with enabled := false }) settles_deactivateTopic ⟨h.inSync.active, h.inSync.known⟩ t

/-- Of the builtin topics of a reload, those that the router has are left out before
they are put in the set. -/
theorem find?_newBuiltinTopics (c : ReloadConfiguration) {t : DdsTopic} (hn : s.knownAs t = none) :
    (newBuiltinTopics s c).keys.find? (same t) = c.builtinTopics.find? (same t) := by
  have hset : newBuiltinTopics s c =
      OrdMap.ofKeys (c.builtinTopics.filter fun t => !s.currentTopics.contains t) := newBuiltinTopics_eq s c
  have hkey := OrdMap.keyOf_ofKeys (c.builtinTopics.filter fun t => !s.currentTopics.contains t) t
  rw [← hset, OrdMap.keyOf] at hkey
  rw [hkey, List.find?_filter]
  congr 1
  funext u
  cases hs : same t u with
  | false => simp
  | true =>
    have hu : s.currentTopics.contains u = false := by
      rw [OrdMap.contains, ← OrdMap.find_congr hs, ← OrdMap.contains, ← OrdMap.isSome_keyOf]
      rw [State.knownAs] at hn
      rw [hn]
      rfl
    simp [hu]

theorem knownAs_reloaded (h : TopicsActive env s) (c : ReloadConfiguration) (t : DdsTopic) :
    (s.reloaded env c).knownAs t = (s.knownAs t).or (c.builtinTopics.find? (same t)) := by
  have hloop : (s.currentTopics.keys.foldl (reloadTopic env)
      { s with allowedTopics := AllowedTopicList.create c.allowlist c.blocklist }).knownAs t = s.knownAs t :=
    knownAs_settled (s := { s with allowedTopics := AllowedTopicList.create c.allowlist c.blocklist })
      (settles_reloadTopic env) ⟨h.inSync.active, h.inSync.known⟩ t
  rw [State.reloaded, knownAs_sameTopics (foldl_sameTopics (reloadService_sameTopics env) _ _), State.reloadedTopics,
    knownAs_foldl_discoveredTopic, hloop]
  cases hk : s.knownAs t with
  | some k => rfl
  | none => rw [Option.none_or, Option.none_or, find?_newBuiltinTopics c hk]

/-- One action adds the topics that it names and that are new. -/
theorem knownAs_step {a : Action} (h : TopicsActive env s) (hs : step env s a = some s') (t : DdsTopic) :
    s'.knownAs t = (s.knownAs t).or ((introduced s a).find? (same t)) := by
  cases a with
  | start =>
    rw [introduced, List.find?_nil, Option.or_none]
    cases step_move hs with
    | keep => rfl
    | start => exact knownAs_started h t
  | stop =>
    rw [introduced, List.find?_nil, Option.or_none]
    cases step_move hs with
    | keep => rfl
    | stop => exact knownAs_stopped h t
  | reload c =>
    simp only [step, Option.map_eq_some_iff] at hs
    obtain ⟨⟨code, s₁⟩, hr, rfl⟩ := hs
    obtain ⟨-, hoff, rfl⟩ | ⟨-, hon, -, hnone, rfl⟩ | ⟨-, hon, rfl⟩ := reload_cases hr
    · simp [introduced, hoff]
    · rw [introduced, if_pos hon]
      cases hk : s₁.knownAs t with
      | some k => rfl
      | none => rw [Option.none_or, ← find?_newBuiltinTopics c hk, hnone, List.find?_nil]
    · rw [introduced, if_pos hon, knownAs_reloaded h c t]
  | discovered e =>
    cases hs
    rw [introduced, discoveredEndpoint]
    by_cases hreader : e.isReader = true
    · rw [if_pos hreader, hreader, Bool.true_and]
      cases hplain : RPCTopic.isServiceTopic e.topic with
      | false =>
        simp only [Bool.not_false, if_true]
        rw [knownAs_discoveredTopic, List.find?_singleton]
      | true =>
        simp only [Bool.not_true, Bool.false_eq_true, if_false, List.find?_nil, Option.or_none]
        split
        · exact knownAs_sameTopics (discoveredService_sameTopics s _ _ _) t
        · rfl
    · simp [hreader]
  | removed e =>
    rw [introduced, List.find?_nil, Option.or_none]
    cases step_move hs with
    | keep => rfl
    | serverRemoved => exact knownAs_sameTopics (updateBridge_sameTopics s _ _) t

theorem knownAs_create (env : Env) (c : ReloadConfiguration) (t : DdsTopic) :
    (create env c).knownAs t = c.builtinTopics.find? (same t) := by
  rw [create, knownAs_foldl_discoveredTopic]
  rfl

/-- A router knows of each name and type the topic that came first. -/
theorem knownAs_run {c : ReloadConfiguration} {as : List Action} (hr : run (step env) (create env c) as = some s)
    (t : DdsTopic) :
    s.knownAs t = (c.builtinTopics ++ trace (step env) introduced (create env c) as).find? (same t) := by
  have hgen : ∀ {s₀ : State} {as : List Action}, TopicsActive env s₀ → run (step env) s₀ as = some s →
      s.knownAs t = (s₀.knownAs t).or ((trace (step env) introduced s₀ as).find? (same t)) := by
    intro s₀ as h hr
    induction as generalizing s₀ with
    | nil =>
      cases hr
      simp [trace]
    | cons a as ih =>
      obtain ⟨s₁, hs, hr⟩ := run_cons_some.mp hr
      rw [ih (topicsActive_step h hs) hr, knownAs_step h hs, trace_cons hs, List.find?_append, Option.or_assoc]
  rw [hgen (topicsActive_create env c) hr, knownAs_create, List.find?_append]

/-- A bridge is for the topic that came first. -/
theorem bridge_topic_knownAs {c : ReloadConfiguration} {as : List Action} {t : DdsTopic} {b : TopicBridge}
    (hr : run (step env) (create env c) as = some s) (hb : s.bridges.find t = some b) :
    s.knownAs t = some b.topic := by
  have h : Rooted c.builtinTopics s := run_invariant (fun _ _ _ hI hs => rooted_step hI hs) (rooted_create env c) hr
  exact OrdMap.keyOf_eq_some.mpr (h.bridges t b hb)

/-- A bridge is on exactly when the router is and the topic that it is for is allowed. -/
theorem bridge_enabled_eq {c : ReloadConfiguration} {as : List Action} {t : DdsTopic} {b : TopicBridge}
    (hr : run (step env) (create env c) as = some s) (hb : s.bridges.find t = some b) :
    b.enabled = (s.enabled && topicAllowed env s b.topic) := by
  have h : TopicsActive env s :=
    run_invariant (fun _ _ _ hI hs => topicsActive_step hI hs) (topicsActive_create env c) hr
  obtain ⟨hmem, hs⟩ := OrdMap.keyOf_eq_some.mp (bridge_topic_knownAs hr hb)
  rw [← h.active b.topic hmem, State.bridgeEnabled, ← OrdMap.find_congr hs, hb]
  rfl

/-- A topic has a bridge that is on exactly when the router is on, and the topic that it
knows by this name and type is allowed. -/
theorem exists_bridge_on_iff {c : ReloadConfiguration} {as : List Action}
    (hr : run (step env) (create env c) as = some s) (t : DdsTopic) :
    (∃ b, s.bridges.find t = some b ∧ b.enabled = true) ↔
      s.enabled = true ∧ ∃ k, s.knownAs t = some k ∧ topicAllowed env s k = true := by
  have h : TopicsActive env s :=
    run_invariant (fun _ _ _ hI hs => topicsActive_step hI hs) (topicsActive_create env c) hr
  constructor
  · rintro ⟨b, hb, hon⟩
    rw [bridge_enabled_eq hr hb, Bool.and_eq_true] at hon
    exact ⟨hon.1, b.topic, bridge_topic_knownAs hr hb, hon.2⟩
  · rintro ⟨he, k, hk, hallowed⟩
    obtain ⟨hmem, hs⟩ := OrdMap.keyOf_eq_some.mp hk
    have hon := h.active k hmem
    rw [he, hallowed, State.bridgeEnabled, ← OrdMap.find_congr hs, ← State.bridgeEnabled] at hon
    exact bridgeEnabled_iff.mp hon

end DDSRouter.Router
