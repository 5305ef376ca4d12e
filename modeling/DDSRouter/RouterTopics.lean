import DDSRouter.Lib.Runs
import DDSRouter.Router

/-!
# Topics of the router

`enabled_`, `current_topics_` and `bridges_` say the same thing three times. The
loops over the topics change each entry by itself, so the invariant is a
statement about one topic: its flag is the flag of its bridge, and both are set
exactly when the router is enabled and the topic allowed.
-/
namespace DDSRouter.Router

open Runs WeakOrder

/-- The bridge of the topic exists and is enabled. -/
def State.bridgeEnabled (s : State) (t : DdsTopic) : Bool :=
  ((s.bridges.find t).map TopicBridge.enabled).getD false

/-- The flags of the topics are those of their bridges. -/
structure InSync (s : State) : Prop where
  active : ∀ t ∈ s.currentTopics.keys, s.currentTopics.find t = some (s.bridgeEnabled t)
  known : ∀ t ∈ s.bridges.keys, t ∈ s.currentTopics.keys

/-- The parts of the state that the operations on one topic leave alone. -/
def State.rest (s : State) : Bool × AllowedTopicList × OrdMap RPCTopic Bool × OrdMap RPCTopic RPCBridge :=
  (s.enabled, s.allowedTopics, s.currentServices, s.rpcBridges)

/-- What `activate_topic_` and `deactivate_topic_` do. -/
structure Switched (v : Bool) (s : State) (t : DdsTopic) (s' : State) : Prop where
  topics : s'.currentTopics = s.currentTopics.set t v
  bridges : ∀ t', s'.bridgeEnabled t' = if same t' t then v else s.bridgeEnabled t'
  keys : ∀ k ∈ s'.bridges.keys, k = t ∨ k ∈ s.bridges.keys
  rest : s'.rest = s.rest

theorem bridgeEnabled_set (s : State) (t t' : DdsTopic) (b : TopicBridge) (m : OrdMap DdsTopic Bool) :
    State.bridgeEnabled { s with currentTopics := m, bridges := s.bridges.set t b } t' =
      if same t' t then b.enabled else s.bridgeEnabled t' := by
  simp only [State.bridgeEnabled, OrdMap.find_set]
  split <;> rfl

theorem activateTopic_switched (s : State) (t : DdsTopic) : Switched true s t (activateTopic s t) := by
  unfold activateTopic
  simp only
  split
  · refine ⟨rfl, fun t' => bridgeEnabled_set s t t' _ _, fun k hk => OrdMap.mem_keys_set hk, rfl⟩
  · refine ⟨rfl, fun t' => bridgeEnabled_set s t t' _ _, fun k hk => OrdMap.mem_keys_set hk, rfl⟩

theorem deactivateTopic_switched (s : State) (t : DdsTopic) : Switched false s t (deactivateTopic s t) := by
  unfold deactivateTopic
  simp only
  split
  · rename_i hf
    refine ⟨rfl, fun t' => ?_, fun k hk => .inr hk, rfl⟩
    split
    · rename_i hs
      simp [State.bridgeEnabled, OrdMap.find_congr hs, hf]
    · rfl
  · refine ⟨rfl, fun t' => bridgeEnabled_set s t t' _ _, fun k hk => OrdMap.mem_keys_set hk, rfl⟩

section Switching

variable {v : Bool} {s s' : State} {t : DdsTopic}

theorem Switched.currentKeys (h : Switched v s t s') (ht : t ∈ s.currentTopics.keys) :
    s'.currentTopics.keys = s.currentTopics.keys := by
  rw [h.topics]
  exact OrdMap.keys_set_of_contains (OrdMap.contains_of_mem_keys ht) v

/-- Switching a topic keeps the flags in step. -/
theorem Switched.inSync (h : Switched v s t s') (hs : InSync s) (ht : t ∈ s.currentTopics.keys) :
    InSync s' := by
  constructor
  · intro t' ht'
    rw [h.currentKeys ht] at ht'
    rw [h.topics, OrdMap.find_set, h.bridges]
    split
    · rfl
    · exact hs.active t' ht'
  · intro k hk
    rw [h.currentKeys ht]
    rcases h.keys k hk with rfl | hk
    · exact ht
    · exact hs.known k hk

/-- Among the topics of the router only the one that is switched changes. -/
theorem Switched.bridgeEnabled (h : Switched v s t s') (ht : t ∈ s.currentTopics.keys) {t' : DdsTopic}
    (ht' : t' ∈ s.currentTopics.keys) :
    s'.bridgeEnabled t' = if t' = t then v else s.bridgeEnabled t' := by
  rw [h.bridges]
  by_cases hs : same t' t = true
  · simp [OrdMap.eq_of_same ht' ht hs]
  · have hne : t' ≠ t := by
      rintro rfl
      simp at hs
    simp [hs, hne]

end Switching

/-- What the loops over the topics keep: the set of topics and the rest of the
state. -/
structure InLoop (s₀ s : State) : Prop where
  inSync : InSync s
  keys : s.currentTopics.keys = s₀.currentTopics.keys
  rest : s.rest = s₀.rest

variable {env : Env}

/-- A loop body that sets the flag of its topic to a value computed from the old
one and the lists, by switching it or by leaving it. -/
def Settles (want : AllowedTopicList → DdsTopic → Bool → Bool) (f : State → DdsTopic → State) : Prop :=
  ∀ s t, InSync s → t ∈ s.currentTopics.keys →
    Switched (want s.allowedTopics t (s.bridgeEnabled t)) s t (f s t) ∨
      f s t = s ∧ want s.allowedTopics t (s.bridgeEnabled t) = s.bridgeEnabled t

/-- A loop over all topics settles each of them. -/
theorem settles_all {want : AllowedTopicList → DdsTopic → Bool → Bool} {f : State → DdsTopic → State}
    (hf : Settles want f) {s : State} (hs : InSync s) :
    InLoop s (s.currentTopics.keys.foldl f s) ∧
      ∀ t ∈ s.currentTopics.keys, (s.currentTopics.keys.foldl f s).bridgeEnabled t =
        want s.allowedTopics t (s.bridgeEnabled t) := by
  have hbody : ∀ s₁ t, InLoop s s₁ → t ∈ s.currentTopics.keys → InLoop s (f s₁ t) ∧
      ∀ t', t' ∈ s.currentTopics.keys → (f s₁ t).bridgeEnabled t' =
        if t' = t then want s.allowedTopics t (s₁.bridgeEnabled t) else s₁.bridgeEnabled t' := by
    intro s₁ t h₁ ht
    have hl : s₁.allowedTopics = s.allowedTopics := congrArg (fun x => x.2.1) h₁.rest
    have ht₁ : t ∈ s₁.currentTopics.keys := h₁.keys ▸ ht
    rcases hf s₁ t h₁.inSync ht₁ with hsw | ⟨heq, hw⟩
    · refine ⟨⟨hsw.inSync h₁.inSync ht₁, (hsw.currentKeys ht₁).trans h₁.keys, hsw.rest.trans h₁.rest⟩, ?_⟩
      intro t' ht'
      rw [hsw.bridgeEnabled ht₁ (h₁.keys ▸ ht'), hl]
    · rw [heq]
      refine ⟨h₁, fun t' _ => ?_⟩
      split
      · rename_i htt
        rw [htt, ← hl, hw]
      · rfl
  obtain ⟨hend, hall⟩ := foldl_keys hbody s.currentTopics.keys_nodup (fun _ h => h) ⟨hs, rfl, rfl⟩
  refine ⟨hend, fun t ht => ?_⟩
  rw [hall t ht, if_pos ht]

theorem settles_activateIfAllowed (env : Env) :
    Settles (fun l t b => l.isTopicAllowed env.utils t || b) (activateIfAllowed env) := by
  intro s t _ _
  by_cases ha : s.allowedTopics.isTopicAllowed env.utils t = true
  · left
    simpa [activateIfAllowed, topicAllowed, ha] using activateTopic_switched s t
  · right
    simp [activateIfAllowed, topicAllowed, ha]

theorem settles_deactivateTopic : Settles (fun _ _ _ => false) deactivateTopic := by
  intro s t _ _
  exact .inl (deactivateTopic_switched s t)

theorem settles_reloadTopic (env : Env) :
    Settles (fun l t _ => l.isTopicAllowed env.utils t) (reloadTopic env) := by
  intro s t hs ht
  have hflag := hs.active t ht
  cases hb : s.bridgeEnabled t with
  | true =>
    rw [hb] at hflag
    by_cases ha : s.allowedTopics.isTopicAllowed env.utils t = true
    · right
      simp [reloadTopic, topicAllowed, hflag, ha]
    · left
      simpa [reloadTopic, topicAllowed, hflag, ha] using deactivateTopic_switched s t
  | false =>
    rw [hb] at hflag
    by_cases ha : s.allowedTopics.isTopicAllowed env.utils t = true
    · left
      simpa [reloadTopic, topicAllowed, hflag, ha] using activateTopic_switched s t
    · right
      simp [reloadTopic, topicAllowed, hflag, ha]

/-- A topic is active exactly when the router is enabled and allows it. -/
structure TopicsActive (env : Env) (s : State) : Prop where
  inSync : InSync s
  active : ∀ t ∈ s.currentTopics.keys, s.bridgeEnabled t = (s.enabled && topicAllowed env s t)

/-- The operations on services touch none of this. -/
theorem topicsActive_congr {s s' : State} (h : TopicsActive env s) (he : s'.enabled = s.enabled)
    (hl : s'.allowedTopics = s.allowedTopics) (ht : s'.currentTopics = s.currentTopics)
    (hb : s'.bridges = s.bridges) : TopicsActive env s' := by
  have hbe : ∀ t, s'.bridgeEnabled t = s.bridgeEnabled t := fun t => by simp only [State.bridgeEnabled, hb]
  refine ⟨⟨fun t hm => ?_, fun t hm => ?_⟩, fun t hm => ?_⟩
  · rw [ht] at hm ⊢
    rw [hbe]
    exact h.inSync.active t hm
  · rw [hb] at hm
    rw [ht]
    exact h.inSync.known t hm
  · rw [ht] at hm
    rw [hbe, he, topicAllowed, hl]
    exact h.active t hm

/-- The topics are not touched by an operation on a service. -/
structure SameTopics (s s' : State) : Prop where
  enabled : s'.enabled = s.enabled
  allowed : s'.allowedTopics = s.allowedTopics
  topics : s'.currentTopics = s.currentTopics
  bridges : s'.bridges = s.bridges

theorem SameTopics.refl (s : State) : SameTopics s s := ⟨rfl, rfl, rfl, rfl⟩

theorem SameTopics.trans {s₁ s₂ s₃ : State} (h : SameTopics s₁ s₂) (h' : SameTopics s₂ s₃) :
    SameTopics s₁ s₃ :=
  ⟨h'.enabled.trans h.enabled, h'.allowed.trans h.allowed, h'.topics.trans h.topics,
    h'.bridges.trans h.bridges⟩

theorem SameTopics.topicsActive {s s' : State} (h : SameTopics s s') (ha : TopicsActive env s) :
    TopicsActive env s' :=
  topicsActive_congr ha h.enabled h.allowed h.topics h.bridges

theorem updateBridge_sameTopics (s : State) (t : RPCTopic) (f : RPCBridge → RPCBridge) :
    SameTopics s (updateBridge s t f) := by
  unfold updateBridge
  split
  · exact ⟨rfl, rfl, rfl, rfl⟩
  · exact SameTopics.refl s

theorem foldl_sameTopics {f : State → RPCTopic → State} (hf : ∀ s t, SameTopics s (f s t))
    (ts : List RPCTopic) (s : State) : SameTopics s (ts.foldl f s) := by
  induction ts generalizing s with
  | nil => exact SameTopics.refl s
  | cons t ts ih => exact (hf s t).trans (ih (f s t))

theorem startService_sameTopics (env : Env) (s : State) (t : RPCTopic) : SameTopics s (startService env s t) := by
  unfold startService
  split
  · exact updateBridge_sameTopics s t _
  · exact SameTopics.refl s

theorem reloadService_sameTopics (env : Env) (s : State) (t : RPCTopic) : SameTopics s (reloadService env s t) := by
  unfold reloadService
  split
  · have h := updateBridge_sameTopics { s with currentServices := s.currentServices.set t true } t
      (enableBridge env)
    exact ⟨h.enabled, h.allowed, h.topics, h.bridges⟩
  · have h := updateBridge_sameTopics { s with currentServices := s.currentServices.set t false } t
      RPCBridge.disable
    exact ⟨h.enabled, h.allowed, h.topics, h.bridges⟩

theorem ensureService_sameTopics (s : State) (t : RPCTopic) : SameTopics s (ensureService env s t) := by
  unfold ensureService
  split
  · exact SameTopics.refl s
  · exact ⟨rfl, rfl, rfl, rfl⟩

theorem enableIfActive_sameTopics (s : State) (t : RPCTopic) : SameTopics s (enableIfActive env s t) := by
  unfold enableIfActive
  split
  · exact updateBridge_sameTopics s t _
  · exact SameTopics.refl s

theorem discoveredService_sameTopics (s : State) (t : RPCTopic) (id : ParticipantId) (g : GuidPrefix) :
    SameTopics s (discoveredService env s t id g) :=
  ((ensureService_sameTopics s t).trans (updateBridge_sameTopics _ t _)).trans
    (enableIfActive_sameTopics _ t)

/-- A new topic enters inactive, and is activated at once where it should be. -/
theorem topicsActive_discoveredTopic {s : State} (h : TopicsActive env s) (t : DdsTopic) :
    TopicsActive env (discoveredTopic env s t) := by
  unfold discoveredTopic
  cases hc : s.currentTopics.contains t with
  | true => simpa using h
  | false =>
    simp only [Bool.false_eq_true, if_false]
    let s₁ : State := { s with currentTopics := s.currentTopics.set t false }
    have hoff : ∀ t', same t' t = true → s.bridgeEnabled t' = false := by
      intro t' hs
      cases hf : s.bridges.find t' with
      | none => simp [State.bridgeEnabled, hf]
      | some b =>
        obtain ⟨k, hk, hm⟩ := OrdMap.mem_of_find hf
        have hmem := h.inSync.known k (OrdMap.mem_keys_of_mem hm)
        exact absurd hmem (OrdMap.not_mem_keys_of_not_contains hc (same_trans (same_symm hs) hk))
    have hsync : InSync s₁ := by
      constructor
      · intro t' ht'
        show (s.currentTopics.set t false).find t' = some (s.bridgeEnabled t')
        rw [OrdMap.find_set]
        split
        · rename_i hs
          rw [hoff t' hs]
        · rename_i hs
          rcases OrdMap.mem_keys_set ht' with rfl | ht'
          · simp at hs
          · exact h.inSync.active t' ht'
      · intro k hk
        exact OrdMap.mem_keys_set_iff.mpr (.inl (h.inSync.known k hk))
    have hmem : t ∈ s₁.currentTopics.keys := OrdMap.mem_keys_set_iff.mpr (.inr ⟨rfl, hc⟩)
    have hold : ∀ t' ∈ s₁.currentTopics.keys, t' ≠ t →
        s.bridgeEnabled t' = (s.enabled && topicAllowed env s t') := by
      intro t' ht' hne
      rcases OrdMap.mem_keys_set ht' with he | ht'
      · exact absurd he hne
      · exact h.active t' ht'
    split
    · rename_i ha
      have hsw := activateTopic_switched s₁ t
      have hrest := hsw.rest
      simp only [State.rest, Prod.mk.injEq] at hrest
      refine ⟨hsw.inSync hsync hmem, fun t' ht' => ?_⟩
      rw [hsw.currentKeys hmem] at ht'
      rw [hsw.bridgeEnabled hmem ht', hrest.1, topicAllowed, hrest.2.1]
      split
      · rename_i htt
        rw [htt]
        exact ha.symm
      · exact hold t' ht' (by assumption)
    · rename_i ha
      refine ⟨hsync, fun t' ht' => ?_⟩
      by_cases htt : t' = t
      · subst htt
        exact (hoff t' (same_refl t')).trans (Bool.eq_false_iff.mpr ha).symm
      · exact hold t' ht' htt

theorem topicsActive_foldl_discoveredTopic {s : State} (h : TopicsActive env s) (ts : List DdsTopic) :
    TopicsActive env (ts.foldl (discoveredTopic env) s) := by
  induction ts generalizing s with
  | nil => exact h
  | cons t ts ih => exact ih (topicsActive_discoveredTopic h t)

/-! ### What one step does -/

/-- The router after a start that takes effect. -/
def State.started (env : Env) (s : State) : State :=
  let s := activateAllTopics env { s with enabled := true }
  s.currentServices.keys.foldl (startService env) s

def State.stopped (s : State) : State := deactivateAllTopics { s with enabled := false }

/-- The topics of a reload that finds something new: the old ones under the new lists,
then the builtin topics. -/
def State.reloadedTopics (env : Env) (s : State) (c : ReloadConfiguration) : State :=
  (newBuiltinTopics s c).keys.foldl (discoveredTopic env)
    (s.currentTopics.keys.foldl (reloadTopic env)
      { s with allowedTopics := AllowedTopicList.create c.allowlist c.blocklist })

def State.reloaded (env : Env) (s : State) (c : ReloadConfiguration) : State :=
  let s := s.reloadedTopics env c
  s.currentServices.keys.foldl (reloadService env) s

theorem step_stop {s : State} (hon : s.enabled = true) : step env s .stop = some s.stopped := by
  simp [step, stop, hon, State.stopped]

theorem reload_cases {s s' : State} {c : ReloadConfiguration} {code : ReturnCode}
    (hr : reloadConfiguration env s c = some (code, s')) :
    (code = .notEnabled ∧ s.enabled = false ∧ s' = s) ∨
      (code = .noData ∧ s.enabled = true ∧
        (AllowedTopicList.create c.allowlist c.blocklist).equal env.utils.toFuzzyUtils s.allowedTopics = true ∧
        (newBuiltinTopics s c).keys = [] ∧ s' = s) ∨
      (code = .ok ∧ s.enabled = true ∧ s' = s.reloaded env c) := by
  unfold reloadConfiguration at hr
  split at hr
  · cases hr
  · split at hr
    · rename_i hen
      simp only at hr
      split at hr
      · rename_i hsame
        rw [Bool.and_eq_true, List.isEmpty_iff] at hsame
        cases hr
        exact .inr (.inl ⟨rfl, hen, hsame.1, hsame.2, rfl⟩)
      · cases hr
        exact .inr (.inr ⟨rfl, hen, rfl⟩)
    · rename_i hen
      cases hr
      exact .inl ⟨rfl, by simpa using hen, rfl⟩

/-- What the actions do to the router. -/
inductive Move (env : Env) (s : State) : Action → State → Prop where
  | keep (a : Action) : Move env s a s
  | start (hoff : s.enabled = false) : Move env s .start (s.started env)
  | stop (hon : s.enabled = true) : Move env s .stop s.stopped
  | reload (c : ReloadConfiguration) (hon : s.enabled = true) : Move env s (.reload c) (s.reloaded env c)
  | topic (e : Endpoint) (hreader : e.isReader = true) (hplain : RPCTopic.isServiceTopic e.topic = false) :
      Move env s (.discovered e) (discoveredTopic env s e.topic)
  | server (e : Endpoint) (hreader : e.isReader = true) (hserver : e.isServerEndpoint = true) :
      Move env s (.discovered e)
        (discoveredService env s (RPCTopic.ofTopic e.topic) e.discovererParticipantId e.guid.guidPrefix)
  | serverRemoved (e : Endpoint) (hserver : e.isServerEndpoint = true) :
      Move env s (.removed e) (removedService s (RPCTopic.ofTopic e.topic) e.discovererParticipantId e.guid.guidPrefix)

theorem step_move {s s' : State} {a : Action} (hs : step env s a = some s') : Move env s a s' := by
  cases a with
  | start =>
    cases hs
    unfold start
    split
    · rename_i hoff
      exact .start (by simpa using hoff)
    · exact .keep _
  | stop =>
    cases hs
    unfold stop
    split
    · rename_i hon
      exact .stop hon
    · exact .keep _
  | reload c =>
    simp only [step, Option.map_eq_some_iff] at hs
    obtain ⟨⟨code, s₁⟩, hr, rfl⟩ := hs
    obtain ⟨-, -, rfl⟩ | ⟨-, -, -, -, rfl⟩ | ⟨-, hon, rfl⟩ := reload_cases hr
    · exact .keep _
    · exact .keep _
    · exact .reload c hon
  | discovered e =>
    cases hs
    unfold discoveredEndpoint
    split
    · rename_i hreader
      split
      · rename_i hplain
        exact .topic e hreader (by simpa using hplain)
      · split
        · rename_i hserver
          exact .server e hreader hserver
        · exact .keep _
    · exact .keep _
  | removed e =>
    cases hs
    unfold removedEndpoint
    split
    · split
      · rename_i hserver
        exact .serverRemoved e hserver
      · exact .keep _
    · exact .keep _

/-! ### The flag and the lists of the router -/

theorem discoveredTopic_rest (s : State) (t : DdsTopic) : (discoveredTopic env s t).rest = s.rest := by
  unfold discoveredTopic
  split
  · rfl
  · simp only
    split
    · exact (activateTopic_switched _ t).rest
    · rfl

theorem foldl_rest {f : State → DdsTopic → State} (hf : ∀ s t, (f s t).rest = s.rest)
    (ts : List DdsTopic) (s : State) : (ts.foldl f s).rest = s.rest := by
  induction ts generalizing s with
  | nil => rfl
  | cons t ts ih => exact (ih (f s t)).trans (hf s t)

theorem activateIfAllowed_rest (env : Env) (s : State) (t : DdsTopic) : (activateIfAllowed env s t).rest = s.rest := by
  unfold activateIfAllowed
  split
  · exact (activateTopic_switched s t).rest
  · rfl

theorem activateAllTopics_rest (env : Env) (s : State) : (activateAllTopics env s).rest = s.rest :=
  foldl_rest (activateIfAllowed_rest env) s.currentTopics.keys s

theorem reloadTopic_rest (env : Env) (s : State) (t : DdsTopic) : (reloadTopic env s t).rest = s.rest := by
  unfold reloadTopic
  split
  · split
    · exact (deactivateTopic_switched s t).rest
    · rfl
  · split
    · exact (activateTopic_switched s t).rest
    · rfl

theorem reloadedTopics_rest (env : Env) (s : State) (c : ReloadConfiguration) :
    (s.reloadedTopics env c).rest =
      State.rest { s with allowedTopics := AllowedTopicList.create c.allowlist c.blocklist } := by
  rw [State.reloadedTopics, foldl_rest discoveredTopic_rest, foldl_rest (reloadTopic_rest env)]

theorem stopped_rest (s : State) : s.stopped.rest = State.rest { s with enabled := false } := by
  rw [State.stopped, deactivateAllTopics, foldl_rest fun s t => (deactivateTopic_switched s t).rest]

section Lists

variable {env : Env} {s s' : State}

/-- `enabled_` after an operation. -/
def Action.flag (enabled : Bool) : Action → Bool
  | .start => true
  | .stop => false
  | .reload _ | .discovered _ | .removed _ => enabled

theorem fields_of_rest (h : s'.rest = s.rest) : s'.enabled = s.enabled ∧ s'.allowedTopics = s.allowedTopics :=
  ⟨congrArg (fun x => x.1) h, congrArg (fun x => x.2.1) h⟩

/-- The flag and the lists after an operation that is not a reload. -/
theorem step_lists {a : Action} (hs : step env s a = some s') (ha : ∀ c, a ≠ .reload c) :
    s'.enabled = a.flag s.enabled ∧ s'.allowedTopics = s.allowedTopics := by
  cases a with
  | reload c => exact absurd rfl (ha c)
  | start =>
    cases hs
    unfold start
    split
    · have hloop := foldl_sameTopics (startService_sameTopics env)
        (activateAllTopics env { s with enabled := true }).currentServices.keys
        (activateAllTopics env { s with enabled := true })
      obtain ⟨he, hl⟩ := fields_of_rest (activateAllTopics_rest env { s with enabled := true })
      exact ⟨hloop.enabled.trans he, hloop.allowed.trans hl⟩
    · rename_i hon
      exact ⟨by simpa [Action.flag] using hon, rfl⟩
  | stop =>
    cases hs
    unfold stop
    split
    · exact fields_of_rest (stopped_rest s)
    · rename_i hoff
      exact ⟨by simpa [Action.flag] using hoff, rfl⟩
  | discovered e =>
    cases step_move hs with
    | keep => exact ⟨rfl, rfl⟩
    | topic => exact fields_of_rest (discoveredTopic_rest s e.topic)
    | server =>
      have h : SameTopics s (discoveredService env s (RPCTopic.ofTopic e.topic) e.discovererParticipantId
        e.guid.guidPrefix) := discoveredService_sameTopics s _ _ _
      exact ⟨h.enabled, h.allowed⟩
  | removed e =>
    cases step_move hs with
    | keep => exact ⟨rfl, rfl⟩
    | serverRemoved =>
      have h := updateBridge_sameTopics s (RPCTopic.ofTopic e.topic) fun b =>
        b.removedService e.discovererParticipantId e.guid.guidPrefix
      exact ⟨h.enabled, h.allowed⟩

/-- A reload that answers `RETCODE_OK` puts its lists in force. -/
theorem lists_of_accepted {c : ReloadConfiguration} (hr : reloadConfiguration env s c = some (.ok, s')) :
    s'.enabled = s.enabled ∧ s'.allowedTopics = AllowedTopicList.create c.allowlist c.blocklist := by
  obtain ⟨hcode, -⟩ | ⟨hcode, -⟩ | ⟨-, -, rfl⟩ := reload_cases hr
  · cases hcode
  · cases hcode
  · have hloop := foldl_sameTopics (reloadService_sameTopics env) (s.reloadedTopics env c).currentServices.keys
      (s.reloadedTopics env c)
    obtain ⟨he, hl⟩ := fields_of_rest (reloadedTopics_rest env s c)
    exact ⟨hloop.enabled.trans he, hloop.allowed.trans hl⟩

end Lists

/-! ### The flags of the topics -/

theorem topicsActive_started {s : State} (h : TopicsActive env s) (hoff : s.enabled = false) :
    TopicsActive env (s.started env) := by
  obtain ⟨hloop, hall⟩ := settles_all (settles_activateIfAllowed env)
    (s := { s with enabled := true }) ⟨h.inSync.active, h.inSync.known⟩
  have hrest := hloop.rest
  simp only [State.rest, Prod.mk.injEq] at hrest
  refine SameTopics.topicsActive (foldl_sameTopics (startService_sameTopics env) _ _) ?_
  refine ⟨hloop.inSync, fun t ht => ?_⟩
  have ht₀ : t ∈ s.currentTopics.keys := hloop.keys ▸ ht
  have hold := h.active t ht₀
  simp only [hoff, Bool.false_and] at hold
  rw [activateAllTopics, hall t ht₀]
  show (s.allowedTopics.isTopicAllowed env.utils t || s.bridgeEnabled t) = _
  rw [hold, hrest.1, topicAllowed, hrest.2.1]
  simp

theorem topicsActive_stopped {s : State} (h : TopicsActive env s) : TopicsActive env s.stopped := by
  obtain ⟨hloop, hall⟩ := settles_all settles_deactivateTopic
    (s := { s with enabled := false }) ⟨h.inSync.active, h.inSync.known⟩
  have hrest := hloop.rest
  simp only [State.rest, Prod.mk.injEq] at hrest
  refine ⟨hloop.inSync, fun t ht => ?_⟩
  rw [State.stopped, deactivateAllTopics, hall t (hloop.keys ▸ ht), hrest.1]
  simp

theorem topicsActive_reloaded {s : State} (h : TopicsActive env s) (c : ReloadConfiguration) (hon : s.enabled = true) :
    TopicsActive env (s.reloaded env c) := by
  refine SameTopics.topicsActive (foldl_sameTopics (reloadService_sameTopics env) _ _) ?_
  apply topicsActive_foldl_discoveredTopic
  obtain ⟨hloop, hall⟩ := settles_all (settles_reloadTopic env)
    (s := { s with allowedTopics := AllowedTopicList.create c.allowlist c.blocklist })
    ⟨h.inSync.active, h.inSync.known⟩
  have hrest := hloop.rest
  simp only [State.rest, Prod.mk.injEq] at hrest
  refine ⟨hloop.inSync, fun t ht => ?_⟩
  rw [hall t (hloop.keys ▸ ht), hrest.1, topicAllowed, hrest.2.1]
  simp [hon]

theorem topicsActive_step {s s' : State} {a : Action} (h : TopicsActive env s)
    (hs : step env s a = some s') : TopicsActive env s' := by
  cases step_move hs with
  | keep => exact h
  | start hoff => exact topicsActive_started h hoff
  | stop => exact topicsActive_stopped h
  | reload c hon => exact topicsActive_reloaded h c hon
  | topic e => exact topicsActive_discoveredTopic h e.topic
  | server => exact (discoveredService_sameTopics s _ _ _).topicsActive h
  | serverRemoved => exact (updateBridge_sameTopics s _ _).topicsActive h

theorem topicsActive_create (env : Env) (c : ReloadConfiguration) : TopicsActive env (create env c) :=
  topicsActive_foldl_discoveredTopic
    ⟨⟨fun t ht => absurd ht (by simp [OrdMap.keys, OrdMap.empty]),
      fun t ht => absurd ht (by simp [OrdMap.keys, OrdMap.empty])⟩,
      fun t ht => absurd ht (by simp [OrdMap.keys, OrdMap.empty])⟩ c.builtinTopics

theorem bridgeEnabled_iff {s : State} {t : DdsTopic} :
    s.bridgeEnabled t = true ↔ ∃ b, s.bridges.find t = some b ∧ b.enabled = true := by
  simp [State.bridgeEnabled, Option.getD_eq_iff]

/-- In every state that the router reaches: a topic has its flag set exactly
when the router is enabled and allows the topic, and exactly then its bridge
exists and is enabled; every bridge is one of a topic of the router, and a bridge
that is enabled is one of an allowed topic in an enabled router. -/
theorem topics_active (env : Env) (c : ReloadConfiguration) (as : List Action) (s : State)
    (hrun : run (step env) (create env c) as = some s) :
    (∀ t ∈ s.currentTopics.keys,
      s.currentTopics.find t = some (s.enabled && topicAllowed env s t) ∧
        ((∃ b, s.bridges.find t = some b ∧ b.enabled = true) ↔ s.currentTopics.find t = some true)) ∧
      (∀ t ∈ s.bridges.keys, t ∈ s.currentTopics.keys) ∧
      ∀ t b, (t, b) ∈ s.bridges.entries → b.enabled = true → s.enabled = true ∧ topicAllowed env s t = true := by
  have h : TopicsActive env s :=
    run_invariant (fun _ _ _ hI hs => topicsActive_step hI hs) (topicsActive_create env c) hrun
  refine ⟨fun t ht => ?_, h.inSync.known, fun t b hb he => ?_⟩
  · have hflag := h.inSync.active t ht
    refine ⟨?_, ?_⟩
    · rw [hflag, h.active t ht]
    · rw [← bridgeEnabled_iff, hflag, Option.some.injEq]
  · have hact := h.active t (h.inSync.known t (OrdMap.mem_keys_of_mem hb))
    rw [bridgeEnabled_iff.mpr ⟨b, OrdMap.find_of_mem hb, he⟩] at hact
    simpa using hact.symm

/-! A router with one participant that allows one topic by name. -/

/-- Levels above zero are set, and patterns are names or the star. -/
def plainUtils : CppUtils where
  isSet level := 0 < level
  fuzzyStr x := x.value
  matchPattern pattern str := pattern = "*" || pattern = str

def plainEnv : Env := { utils := plainUtils, rtpsParticipantsIds := [⟨"a"⟩] }

def filterName (name : String) : WildcardDdsFilterTopic :=
  { topicName := name, typeName := ⟨"", 0⟩, keyed := ⟨false, 0⟩ }

def chat : DdsTopic := { topicName := "chat", typeName := "String" }

def readerOf (t : DdsTopic) (g : Guid) : Endpoint :=
  { kind := .reader, guid := g, topic := t, discovererParticipantId := ⟨"a"⟩ }

/-- One topic is discovered before the start and another after it, a reload blocks the
first, and the router is stopped and started again. -/
def reloadedAndRestarted : List Action :=
  [.discovered (readerOf chat ⟨2, 1⟩), .start, .discovered (readerOf { chat with topicName := "news" } ⟨2, 2⟩),
    .reload { blocklist := [filterName "chat"] }, .stop, .start]

theorem topics_active_after_reload :
    ∃ s, run (step plainEnv) (create plainEnv {}) reloadedAndRestarted = some s ∧
      s.currentTopics.find chat = some false ∧ (¬ ∃ b, s.bridges.find chat = some b ∧ b.enabled = true) ∧
      s.currentTopics.find { chat with topicName := "news" } = some true ∧
      ∃ b, s.bridges.find { chat with topicName := "news" } = some b ∧ b.enabled = true := by
  have hrun : ∃ s, run (step plainEnv) (create plainEnv {}) reloadedAndRestarted = some s ∧
      chat ∈ s.currentTopics.keys ∧ { chat with topicName := "news" } ∈ s.currentTopics.keys ∧
        (s.enabled && topicAllowed plainEnv s chat) = false ∧
        (s.enabled && topicAllowed plainEnv s { chat with topicName := "news" }) = true := ⟨_, rfl, by decide⟩
  obtain ⟨s, hrun, hchat, hnews, hblocked, hact⟩ := hrun
  obtain ⟨hall, -, -⟩ := topics_active plainEnv {} reloadedAndRestarted s hrun
  obtain ⟨hflag, hbridge⟩ := hall chat hchat
  obtain ⟨hflag', hbridge'⟩ := hall _ hnews
  rw [hblocked] at hflag
  rw [hact] at hflag'
  refine ⟨s, hrun, hflag, fun h => ?_, hflag', hbridge'.mpr hflag'⟩
  rw [hbridge, hflag] at h
  cases h

end DDSRouter.Router
