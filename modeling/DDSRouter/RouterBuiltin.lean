import DDSRouter.RouterServices

/-!
# Topics of services among the topics

An endpoint that is discovered is sorted first: its topic goes to the topics or
its service to the services. The builtin topics of a configuration are not
sorted, neither at construction nor in a reload.
-/
namespace DDSRouter.Router

open Runs WeakOrder

/-- No topic of the router and no topic of a bridge belongs to a service. -/
structure Plain (s : State) : Prop where
  topics : ∀ t ∈ s.currentTopics.keys, RPCTopic.isServiceTopic t = false
  bridges : ∀ t ∈ s.bridges.keys, RPCTopic.isServiceTopic t = false

/-- No topic bridge is for a topic that a service bridge has endpoints in. -/
def Apart (s : State) : Prop :=
  ∀ t ∈ s.bridges.keys, ∀ T b, s.rpcBridges.find T = some b →
    same t b.topic.requestTopic = false ∧ same t b.topic.replyTopic = false

/-- No builtin topic of a reload that takes place belongs to a service. -/
def BuiltinPlain (s : State) : Action → Prop
  | .reload c => s.enabled = true → ∀ t ∈ c.builtinTopics, RPCTopic.isServiceTopic t = false
  | _ => True

/-- A request topic that a reader is discovered in has a reply topic that is seen
as one of a service too. -/
def Paired : Action → Prop
  | .discovered e =>
    e.isReader = true → RPCTopic.isRequestTopic e.topic = true →
      RPCTopic.isServiceTopic (RPCTopic.ofTopic e.topic).replyTopic = true
  | _ => True

/-! ### Topics -/

section Topics

variable {env : Env} {s s' : State} {t t' : DdsTopic}

theorem isServiceTopic_congr (h : same t t' = true) :
    RPCTopic.isServiceTopic t = RPCTopic.isServiceTopic t' := by
  rw [same_iff] at h
  have hlex : toLex (t.topicName, t.typeName) = toLex (t'.topicName, t'.typeName) := by
    have hle := h.1
    have hge := h.2
    change DdsTopic.less t t' = false at hle
    change DdsTopic.less t' t = false at hge
    rw [DdsTopic.less_eq_lex, decide_eq_false_iff_not, not_lt] at hle hge
    exact le_antisymm hge hle
  have hpair := toLex.injective hlex
  simp only [Prod.mk.injEq] at hpair
  simp only [RPCTopic.isServiceTopic, RPCTopic.isRequestTopic, RPCTopic.isReplyTopic, RPCTopic.isTopicOf,
    hpair.1, hpair.2]

theorem plain_switched {v : Bool} (h : Plain s) (ht : RPCTopic.isServiceTopic t = false)
    (hs : Switched v s t s') : Plain s' := by
  refine ⟨fun k hk => ?_, fun k hk => ?_⟩
  · rw [hs.topics] at hk
    rcases OrdMap.mem_keys_set hk with rfl | hk
    · exact ht
    · exact h.topics k hk
  · rcases hs.keys k hk with rfl | hk
    · exact ht
    · exact h.bridges k hk

theorem plain_sameTopics (h : Plain s) (hs : SameTopics s s') : Plain s' :=
  ⟨hs.topics ▸ h.topics, hs.bridges ▸ h.bridges⟩

/-- A loop over topics that belong to no service. -/
theorem plain_foldl {f : State → DdsTopic → State}
    (hf : ∀ s t, Plain s → RPCTopic.isServiceTopic t = false → Plain (f s t)) {ts : List DdsTopic}
    (hts : ∀ t ∈ ts, RPCTopic.isServiceTopic t = false) (h : Plain s) : Plain (ts.foldl f s) := by
  induction ts generalizing s with
  | nil => exact h
  | cons t ts ih =>
    rw [List.forall_mem_cons] at hts
    exact ih hts.2 (hf s t h hts.1)

theorem plain_activateIfAllowed (env : Env) (s : State) (t : DdsTopic) (h : Plain s)
    (ht : RPCTopic.isServiceTopic t = false) : Plain (activateIfAllowed env s t) := by
  unfold activateIfAllowed
  split
  · exact plain_switched h ht (activateTopic_switched s t)
  · exact h

theorem plain_deactivateTopic (s : State) (t : DdsTopic) (h : Plain s)
    (ht : RPCTopic.isServiceTopic t = false) : Plain (deactivateTopic s t) :=
  plain_switched h ht (deactivateTopic_switched s t)

theorem plain_reloadTopic (env : Env) (s : State) (t : DdsTopic) (h : Plain s)
    (ht : RPCTopic.isServiceTopic t = false) : Plain (reloadTopic env s t) := by
  unfold reloadTopic
  split
  · split
    · exact plain_deactivateTopic s t h ht
    · exact h
  · split
    · exact plain_switched h ht (activateTopic_switched s t)
    · exact h

theorem plain_discoveredTopic (env : Env) (s : State) (t : DdsTopic) (h : Plain s)
    (ht : RPCTopic.isServiceTopic t = false) : Plain (discoveredTopic env s t) := by
  unfold discoveredTopic
  split
  · exact h
  · have hset : Plain { s with currentTopics := s.currentTopics.set t false } := by
      refine ⟨fun k hk => ?_, h.bridges⟩
      rcases OrdMap.mem_keys_set hk with rfl | hk
      · exact ht
      · exact h.topics k hk
    simp only
    split
    · exact plain_switched hset ht (activateTopic_switched _ t)
    · exact hset

theorem contains_discoveredTopic (env : Env) (s : State) (t t' : DdsTopic) :
    (discoveredTopic env s t).currentTopics.contains t' = (same t' t || s.currentTopics.contains t') := by
  unfold discoveredTopic
  split
  · rename_i hc
    cases hs : same t' t with
    | false => rfl
    | true => rw [OrdMap.contains, OrdMap.find_congr hs, ← OrdMap.contains, hc, Bool.true_or]
  · simp only
    split
    · rw [(activateTopic_switched _ t).topics, OrdMap.contains_set, OrdMap.contains_set]
      cases same t' t <;> simp
    · exact OrdMap.contains_set _ _ _ _

/-- The topics of the list are topics of the router afterwards. -/
theorem contains_foldl_discoveredTopic (env : Env) (ts : List DdsTopic) (t : DdsTopic) (s : State) :
    (ts.foldl (discoveredTopic env) s).currentTopics.contains t =
      (ts.any (fun t' => same t t') || s.currentTopics.contains t) := by
  induction ts generalizing s with
  | nil => rfl
  | cons u ts ih =>
    rw [List.foldl_cons, ih, contains_discoveredTopic, List.any_cons]
    cases same t u <;> simp

theorem newBuiltinTopics_eq (s : State) (c : ReloadConfiguration) :
    newBuiltinTopics s c =
      (c.builtinTopics.filter fun t => !s.currentTopics.contains t).foldl (fun m t => m.set t ()) OrdMap.empty := by
  rw [newBuiltinTopics, List.foldl_filter]
  congr 1
  funext m t
  cases s.currentTopics.contains t <;> rfl

/-- A builtin topic that the router does not have is new. -/
theorem contains_newBuiltinTopics {c : ReloadConfiguration} (ht : t ∈ c.builtinTopics)
    (hn : s.currentTopics.contains t = false) : (newBuiltinTopics s c).contains t = true := by
  rw [newBuiltinTopics_eq, OrdMap.contains_foldl_set, Bool.or_eq_true, List.any_eq_true]
  exact .inl ⟨t, List.mem_filter.mpr ⟨ht, by simp [hn]⟩, same_refl t⟩

theorem mem_newBuiltinTopics {c : ReloadConfiguration} (ht : t ∈ (newBuiltinTopics s c).keys) :
    t ∈ c.builtinTopics := by
  rw [newBuiltinTopics_eq] at ht
  rcases OrdMap.mem_keys_foldl_set ht with h | h
  · exact List.mem_of_mem_filter h
  · simp [OrdMap.keys, OrdMap.empty] at h

/-- What has a key equivalent to a topic of a service is not plain. -/
theorem not_plain_of_contains (ht : RPCTopic.isServiceTopic t = true) (hc : s.currentTopics.contains t = true) :
    ¬ Plain s := by
  intro h
  obtain ⟨v, hv⟩ := Option.isSome_iff_exists.mp hc
  obtain ⟨k, hk, hm⟩ := OrdMap.mem_of_find hv
  have hplain := h.topics k (OrdMap.mem_keys_of_mem hm)
  rw [← isServiceTopic_congr hk, ht] at hplain
  cases hplain

/-- A reload in an enabled router takes up every builtin topic that is new. -/
theorem builtinPlain_of_plain {c : ReloadConfiguration} {code : ReturnCode} (h : Plain s)
    (hr : reloadConfiguration env s c = some (code, s')) (h' : Plain s') : BuiltinPlain s (.reload c) := by
  intro hen t ht
  by_contra hservice
  rw [Bool.not_eq_false] at hservice
  have hnew : s.currentTopics.contains t = false := by
    by_contra hc
    exact not_plain_of_contains hservice (by simpa using hc) h
  obtain ⟨v, hv⟩ := Option.isSome_iff_exists.mp (contains_newBuiltinTopics ht hnew)
  obtain ⟨k, hk, hm⟩ := OrdMap.mem_of_find hv
  have hmem : k ∈ (newBuiltinTopics s c).keys := OrdMap.mem_keys_of_mem hm
  obtain ⟨-, hoff, -⟩ | ⟨-, -, -, hnone, -⟩ | ⟨-, -, rfl⟩ := reload_cases hr
  · rw [hen] at hoff
    cases hoff
  · rw [hnone] at hmem
    cases hmem
  · refine not_plain_of_contains hservice ?_ h'
    rw [State.reloaded, (foldl_sameTopics (reloadService_sameTopics env) _ _).topics, State.reloadedTopics,
      contains_foldl_discoveredTopic, Bool.or_eq_true, List.any_eq_true]
    exact .inl ⟨k, hmem, hk⟩

theorem plain_step {a : Action} (hc : BuiltinPlain s a) (h : Plain s) (hs : step env s a = some s') : Plain s' := by
  cases step_move hs with
  | keep => exact h
  | start =>
    refine plain_sameTopics ?_ (foldl_sameTopics (startService_sameTopics env) _ _)
    exact plain_foldl (plain_activateIfAllowed env) h.topics ⟨h.topics, h.bridges⟩
  | stop => exact plain_foldl plain_deactivateTopic h.topics ⟨h.topics, h.bridges⟩
  | reload c hon =>
    refine plain_sameTopics ?_ (foldl_sameTopics (reloadService_sameTopics env) _ _)
    refine plain_foldl (plain_discoveredTopic env) (fun t ht => hc hon t (mem_newBuiltinTopics ht)) ?_
    exact plain_foldl (plain_reloadTopic env) h.topics ⟨h.topics, h.bridges⟩
  | topic e hreader hplain => exact plain_discoveredTopic env s e.topic h hplain
  | server => exact plain_sameTopics h (discoveredService_sameTopics s _ _ _)
  | serverRemoved => exact plain_sameTopics h (updateBridge_sameTopics s _ _)

theorem builtinPlain_of_step {a : Action} (h : Plain s) (hs : step env s a = some s') (h' : Plain s') :
    BuiltinPlain s a := by
  cases a with
  | start | stop | discovered | removed => trivial
  | reload c =>
    simp only [step, Option.map_eq_some_iff] at hs
    obtain ⟨⟨code, s₁⟩, hr, rfl⟩ := hs
    exact builtinPlain_of_plain h hr h'

theorem plain_create (env : Env) (c : ReloadConfiguration) :
    Plain (create env c) ↔ ∀ t ∈ c.builtinTopics, RPCTopic.isServiceTopic t = false := by
  constructor
  · intro h t ht
    by_contra hservice
    rw [Bool.not_eq_false] at hservice
    refine not_plain_of_contains hservice ?_ h
    rw [create, contains_foldl_discoveredTopic, Bool.or_eq_true, List.any_eq_true]
    exact .inl ⟨t, ht, same_refl t⟩
  · intro h
    refine plain_foldl (plain_discoveredTopic env) h ⟨?_, ?_⟩
    · simp [OrdMap.keys, OrdMap.empty]
    · simp [OrdMap.keys, OrdMap.empty]

/-- The topics are plain in all states of a run exactly when no builtin topic
belongs to a service. -/
theorem visits_plain_iff (env : Env) (c : ReloadConfiguration) (as : List Action) :
    Visits (step env) Plain (create env c) as ↔
      (∀ t ∈ c.builtinTopics, RPCTopic.isServiceTopic t = false) ∧
        Along (step env) BuiltinPlain (create env c) as := by
  have hiff : ∀ {s}, Plain s → (Visits (step env) Plain s as ↔ Along (step env) BuiltinPlain s as) :=
    fun h => visits_iff_along (fun _ h => h) (fun _ _ _ hc h hs => plain_step hc h hs)
      (fun _ _ _ h hs h' => builtinPlain_of_step h hs h') h as
  constructor
  · intro hv
    have h := visits_first hv
    exact ⟨(plain_create env c).mp h, (hiff h).mp hv⟩
  · rintro ⟨hc, ha⟩
    exact (hiff ((plain_create env c).mpr hc)).mpr ha

end Topics

/-! ### Services -/

section Services

variable {env : Env} {s s' : State}

/-- Both topics of every service bridge are topics of a service. -/
def ServicePairs (bridges : OrdMap RPCTopic RPCBridge) : Prop :=
  ∀ T b, bridges.find T = some b →
    RPCTopic.isServiceTopic b.topic.requestTopic = true ∧ RPCTopic.isServiceTopic b.topic.replyTopic = true

theorem apart_of_plain (h : Plain s) (hp : ServicePairs s.rpcBridges) : Apart s := by
  intro t ht T b hb
  have hplain := h.bridges t ht
  obtain ⟨hrequest, hreply⟩ := hp T b hb
  constructor
  · by_contra hs
    rw [isServiceTopic_congr (by simpa using hs), hrequest] at hplain
    cases hplain
  · by_contra hs
    rw [isServiceTopic_congr (by simpa using hs), hreply] at hplain
    cases hplain

theorem servicePairs_rest (h : ServicePairs s.rpcBridges) (hr : s'.rest = s.rest) : ServicePairs s'.rpcBridges := by
  have hb : s'.rpcBridges = s.rpcBridges := congrArg (fun x => x.2.2.2) hr
  rw [hb]
  exact h

theorem servicePairs_updateBridge (h : ServicePairs s.rpcBridges) (t : RPCTopic) {f : RPCBridge → RPCBridge}
    (hf : ∀ b, (f b).topic = b.topic) : ServicePairs (updateBridge s t f).rpcBridges := by
  intro T b hb
  rw [updateBridge_find] at hb
  split at hb
  · rw [Option.map_eq_some_iff] at hb
    obtain ⟨b₀, hb₀, rfl⟩ := hb
    rw [hf]
    exact h t b₀ hb₀
  · exact h T b hb

theorem servicePairs_foldl {f : State → RPCTopic → State}
    (hf : ∀ s t, ServicePairs s.rpcBridges → ServicePairs (f s t).rpcBridges) (ts : List RPCTopic)
    (h : ServicePairs s.rpcBridges) : ServicePairs (ts.foldl f s).rpcBridges := by
  induction ts generalizing s with
  | nil => exact h
  | cons t ts ih => exact ih (hf s t h)

theorem servicePairs_startService (env : Env) (s : State) (t : RPCTopic) (h : ServicePairs s.rpcBridges) :
    ServicePairs (startService env s t).rpcBridges := by
  unfold startService
  split
  · exact servicePairs_updateBridge h t (topic_enableBridge env)
  · exact h

theorem servicePairs_reloadService (env : Env) (s : State) (t : RPCTopic) (h : ServicePairs s.rpcBridges) :
    ServicePairs (reloadService env s t).rpcBridges := by
  unfold reloadService
  split
  · refine servicePairs_updateBridge ?_ t (topic_enableBridge env)
    exact h
  · refine servicePairs_updateBridge ?_ t fun _ => rfl
    exact h

/-- A service that is discovered brings its two topics. -/
theorem servicePairs_discoveredService (env : Env) {t : RPCTopic} (h : ServicePairs s.rpcBridges)
    (ht : RPCTopic.isServiceTopic t.requestTopic = true ∧ RPCTopic.isServiceTopic t.replyTopic = true)
    (id : ParticipantId) (g : GuidPrefix) : ServicePairs (discoveredService env s t id g).rpcBridges := by
  have hensure : ServicePairs (ensureService env s t).rpcBridges := by
    unfold ensureService
    split
    · exact h
    · intro T b hb
      simp only [createNewService, OrdMap.find_set] at hb
      split at hb
      · cases hb
        exact ht
      · exact h T b hb
  have hupdate := servicePairs_updateBridge hensure t fun b => RPCBridge.topic_discoveredService b id g
  unfold discoveredService enableIfActive
  split
  · exact servicePairs_updateBridge hupdate t (topic_enableBridge env)
  · exact hupdate

theorem servicePairs_step {a : Action} (hp : Paired a) (h : ServicePairs s.rpcBridges)
    (hs : step env s a = some s') : ServicePairs s'.rpcBridges := by
  cases step_move hs with
  | keep => exact h
  | start =>
    refine servicePairs_foldl (servicePairs_startService env) _ ?_
    refine servicePairs_rest ?_ (activateAllTopics_rest env _)
    exact h
  | stop =>
    refine servicePairs_rest ?_ (stopped_rest s)
    exact h
  | reload c =>
    refine servicePairs_foldl (servicePairs_reloadService env) _ ?_
    refine servicePairs_rest ?_ (reloadedTopics_rest env s c)
    exact h
  | topic e => exact servicePairs_rest h (discoveredTopic_rest s e.topic)
  | server e hreader hserver =>
    -- Only readers come here, so that a server is known by its request topic.
    have hrequest : RPCTopic.isRequestTopic e.topic = true := by
      have hkind : e.kind = .reader := by simpa [Endpoint.isReader] using hreader
      simpa [Endpoint.isServerEndpoint, Endpoint.isReader, Endpoint.isWriter, hkind] using hserver
    refine servicePairs_discoveredService env h ⟨?_, hp hreader hrequest⟩ _ _
    simp [RPCTopic.ofTopic, RPCTopic.isServiceTopic, hrequest]
  | serverRemoved => exact servicePairs_updateBridge h _ fun b => RPCBridge.topic_removedService b _ _

theorem servicePairs_create (env : Env) (c : ReloadConfiguration) : ServicePairs (create env c).rpcBridges := by
  refine servicePairs_rest ?_ (foldl_rest (fun s t => discoveredTopic_rest s t) _ _)
  intro T b hb
  cases hb

end Services

/-- Without builtin topics of services, and exactly then, no topic of the router
belongs to a service in any state of a run. Where moreover every request topic that
is discovered has a reply topic of a service, no topic has endpoints of a topic
bridge and of a service bridge. -/
theorem service_topics_apart (env : Env) (c : ReloadConfiguration) (as : List Action) :
    (Visits (step env) Plain (create env c) as ↔
      (∀ t ∈ c.builtinTopics, RPCTopic.isServiceTopic t = false) ∧
        Along (step env) BuiltinPlain (create env c) as) ∧
    ((∀ t ∈ c.builtinTopics, RPCTopic.isServiceTopic t = false) →
      Along (step env) (fun s a => BuiltinPlain s a ∧ Paired a) (create env c) as →
        Visits (step env) (fun s => Plain s ∧ Apart s) (create env c) as) := by
  refine ⟨visits_plain_iff env c as, fun hc ha => ?_⟩
  exact visits_of_along (I := fun s => Plain s ∧ ServicePairs s.rpcBridges)
    (fun s h => ⟨h.1, apart_of_plain h.1 h.2⟩)
    (fun s a s' hca h hs => ⟨plain_step hca.1 h.1 hs, servicePairs_step hca.2 h.2 hs⟩)
    ⟨(plain_create env c).mpr hc, servicePairs_create env c⟩ ha

/-! A topic and a service, with the topic or the request topic of the service as
builtin topic. -/

instance (s : State) : ∀ a, Decidable (BuiltinPlain s a)
  | .reload c => inferInstanceAs (Decidable (s.enabled = true → ∀ t ∈ c.builtinTopics, _))
  | .start | .stop | .discovered _ | .removed _ => inferInstanceAs (Decidable True)

instance : ∀ a, Decidable (Paired a)
  | .discovered e => inferInstanceAs (Decidable (e.isReader = true → RPCTopic.isRequestTopic e.topic = true → _))
  | .start | .stop | .reload _ | .removed _ => inferInstanceAs (Decidable True)

def serverDiscovered : List Action :=
  [.start, .discovered (readerOf addTwoInts ⟨2, 1⟩), .reload { builtinTopics := [chat] }]

theorem service_topics_apart_from_chat :
    Visits (step plainEnv) Plain (create plainEnv { builtinTopics := [chat] }) serverDiscovered ∧
    Visits (step plainEnv) (fun s => Plain s ∧ Apart s) (create plainEnv { builtinTopics := [chat] }) serverDiscovered ∧
    ∃ s, run (step plainEnv) (create plainEnv { builtinTopics := [chat] }) serverDiscovered = some s ∧
      s.bridges.keys = [chat] ∧ s.rpcBridges.keys = [RPCTopic.ofTopic addTwoInts] := by
  obtain ⟨hplain, hapart⟩ := service_topics_apart plainEnv { builtinTopics := [chat] } serverDiscovered
  exact ⟨hplain.mpr (by decide), hapart (by decide) (by decide), _, rfl, by decide, by decide⟩

/-- The request topic of the service is bridged as a topic, and its service has a bridge
with the same request topic. -/
theorem service_topic_bridged_twice :
    ∃ s, run (step plainEnv) (create plainEnv { builtinTopics := [addTwoInts] }) serverDiscovered = some s ∧
      addTwoInts ∈ s.currentTopics.keys ∧ addTwoInts ∈ s.bridges.keys ∧
      RPCTopic.isServiceTopic addTwoInts = true ∧
      (∃ b, s.rpcBridges.find (RPCTopic.ofTopic addTwoInts) = some b ∧ b.topic.requestTopic = addTwoInts) ∧
      ¬ Plain s ∧ ¬ Apart s := by
  have hrun : ∃ s b, run (step plainEnv) (create plainEnv { builtinTopics := [addTwoInts] }) serverDiscovered = some s ∧
      addTwoInts ∈ s.currentTopics.keys ∧ addTwoInts ∈ s.bridges.keys ∧
      s.rpcBridges.find (RPCTopic.ofTopic addTwoInts) = some b ∧ b.topic.requestTopic = addTwoInts :=
    ⟨_, _, rfl, by decide, by decide, rfl, by decide⟩
  obtain ⟨s, b, hrun, ht, hb, hf, hreq⟩ := hrun
  refine ⟨s, hrun, ht, hb, by decide, ⟨b, hf, hreq⟩, fun h => ?_, fun h => ?_⟩
  · exact absurd (h.topics addTwoInts ht) (by decide)
  · have hne := (h addTwoInts hb _ b hf).1
    rw [hreq, same_refl] at hne
    cases hne

end DDSRouter.Router
