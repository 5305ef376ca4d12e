import DDSRouter.RouterTopics

/-!
# Services of the router

A service bridge should be enabled exactly when the router is enabled, the
service is allowed and some server of it is known. Discovery, removal, reload
and start keep to that. `stop_` deactivates the topics and forgets the services:
it is the one operation that breaks the equivalence, unless no service bridge
is enabled when it is called.
-/
namespace DDSRouter.Router

open Runs WeakOrder

/-- What the router has for a service: its flag and its bridge. -/
def State.service (s : State) (t : RPCTopic) : Option Bool × Option RPCBridge :=
  (s.currentServices.find t, s.rpcBridges.find t)

/-- An operation on services: the topics and the set of services stay. -/
structure OnServices (s s' : State) : Prop where
  topics : SameTopics s s'
  services : s'.currentServices.keys = s.currentServices.keys
  bridges : s'.rpcBridges.keys = s.rpcBridges.keys

theorem OnServices.refl (s : State) : OnServices s s := ⟨SameTopics.refl s, rfl, rfl⟩

theorem OnServices.trans {s₁ s₂ s₃ : State} (h : OnServices s₁ s₂) (h' : OnServices s₂ s₃) :
    OnServices s₁ s₃ :=
  ⟨h.topics.trans h'.topics, h'.services.trans h.services, h'.bridges.trans h.bridges⟩

theorem updateBridge_onServices (s : State) (t : RPCTopic) (f : RPCBridge → RPCBridge) :
    OnServices s (updateBridge s t f) := by
  refine ⟨updateBridge_sameTopics s t f, ?_, ?_⟩
  · unfold updateBridge
    split <;> rfl
  · unfold updateBridge
    split
    · rename_i b hb
      exact OrdMap.keys_set_of_contains (by simp [OrdMap.contains, hb]) _
    · rfl

theorem updateBridge_services (s : State) (t : RPCTopic) (f : RPCBridge → RPCBridge) :
    (updateBridge s t f).currentServices = s.currentServices := by
  unfold updateBridge
  split <;> rfl

theorem updateBridge_find (s : State) (t t' : RPCTopic) (f : RPCBridge → RPCBridge) :
    (updateBridge s t f).rpcBridges.find t' =
      if same t' t then (s.rpcBridges.find t).map f else s.rpcBridges.find t' := by
  unfold updateBridge
  cases hb : s.rpcBridges.find t with
  | some b => simp
  | none =>
    simp only
    split
    · rename_i hs
      rw [OrdMap.find_congr hs, hb]
      rfl
    · rfl

/-- A loop body that changes its own service only. -/
def SettlesService (want : AllowedTopicList → RPCTopic → Option Bool × Option RPCBridge →
    Option Bool × Option RPCBridge) (f : State → RPCTopic → State) : Prop :=
  ∀ s t, t ∈ s.currentServices.keys → OnServices s (f s t) ∧
    ∀ t', (f s t).service t' = if same t' t then want s.allowedTopics t (s.service t) else s.service t'

theorem settles_all_services {want : AllowedTopicList → RPCTopic → Option Bool × Option RPCBridge →
    Option Bool × Option RPCBridge} {f : State → RPCTopic → State} (hf : SettlesService want f) (s : State) :
    OnServices s (s.currentServices.keys.foldl f s) ∧
      ∀ t ∈ s.currentServices.keys, (s.currentServices.keys.foldl f s).service t =
        want s.allowedTopics t (s.service t) := by
  have hbody : ∀ s₁ t, OnServices s s₁ → t ∈ s.currentServices.keys → OnServices s (f s₁ t) ∧
      ∀ t', t' ∈ s.currentServices.keys → (f s₁ t).service t' =
        if t' = t then want s.allowedTopics t (s₁.service t) else s₁.service t' := by
    intro s₁ t h₁ ht
    obtain ⟨hon, hone⟩ := hf s₁ t (h₁.services ▸ ht)
    refine ⟨h₁.trans hon, fun t' ht' => ?_⟩
    rw [hone t', h₁.topics.allowed]
    by_cases hs : same t' t = true
    · simp [OrdMap.eq_of_same ht' ht hs]
    · have hne : t' ≠ t := by
        rintro rfl
        simp at hs
      simp [hs, hne]
  obtain ⟨hend, hall⟩ := foldl_keys hbody s.currentServices.keys_nodup (fun _ h => h) (OnServices.refl s)
  refine ⟨hend, fun t ht => ?_⟩
  rw [hall t ht, if_pos ht]

theorem settles_startService (env : Env) :
    SettlesService (fun _ _ x => (x.1, if x.1 = some true then x.2.map (enableBridge env) else x.2))
      (startService env) := by
  intro s t _
  unfold startService
  by_cases hf : s.currentServices.find t = some true
  · rw [if_pos hf]
    refine ⟨updateBridge_onServices s t _, fun t' => ?_⟩
    simp only [State.service, updateBridge_services, updateBridge_find, hf, if_true]
    split
    · rename_i hs
      rw [OrdMap.find_congr hs, hf]
    · rfl
  · rw [if_neg hf]
    refine ⟨OnServices.refl s, fun t' => ?_⟩
    simp only [State.service, hf, if_false]
    split
    · rename_i hs
      rw [OrdMap.find_congr hs, OrdMap.find_congr hs]
    · rfl

theorem settles_reloadService (env : Env) :
    SettlesService (fun l t x => (some (l.isServiceAllowed env.utils t),
        x.2.map (if l.isServiceAllowed env.utils t then enableBridge env else RPCBridge.disable)))
      (reloadService env) := by
  intro s t ht
  have hset : ∀ v f, OnServices s (updateBridge { s with currentServices := s.currentServices.set t v } t f) ∧
      ∀ t', (updateBridge { s with currentServices := s.currentServices.set t v } t f).service t' =
        if same t' t then (some v, (s.service t).2.map f) else s.service t' := by
    intro v f
    have hkeys := OrdMap.keys_set_of_contains (OrdMap.contains_of_mem_keys ht) v
    have hon := updateBridge_onServices { s with currentServices := s.currentServices.set t v } t f
    refine ⟨⟨⟨hon.topics.enabled, hon.topics.allowed, hon.topics.topics, hon.topics.bridges⟩,
      hon.services.trans hkeys, hon.bridges⟩, fun t' => ?_⟩
    simp only [State.service, updateBridge_services, updateBridge_find, OrdMap.find_set]
    split <;> rfl
  unfold reloadService
  by_cases ha : s.allowedTopics.isServiceAllowed env.utils t = true
  · simpa [serviceAllowed, ha] using hset true (enableBridge env)
  · simpa [serviceAllowed, ha] using hset false RPCBridge.disable

/-- The service is flagged as the lists say, and its bridge is enabled exactly
when router, lists and servers ask for it. -/
def Follows (env : Env) (s : State) (t : RPCTopic) : Prop :=
  ∃ b, s.service t = (some (serviceAllowed env s t), some b) ∧
    b.enabled = (s.enabled && serviceAllowed env s t && b.serversAvailable)

structure ServicesFollow (env : Env) (s : State) : Prop where
  keys : s.rpcBridges.keys = s.currentServices.keys
  follow : ∀ t ∈ s.currentServices.keys, Follows env s t

variable {env : Env}

/-- The operations on topics touch none of this. -/
theorem servicesFollow_rest {s s' : State} (h : ServicesFollow env s) (hr : s'.rest = s.rest) :
    ServicesFollow env s' := by
  simp only [State.rest, Prod.mk.injEq] at hr
  obtain ⟨he, hl, hc, hb⟩ := hr
  refine ⟨by rw [hb, hc]; exact h.keys, fun t ht => ?_⟩
  have hf := h.follow t (hc ▸ ht)
  simpa only [Follows, State.service, serviceAllowed, he, hl, hc, hb] using hf

theorem topic_enableBridge (env : Env) (b : RPCBridge) : (enableBridge env b).topic = b.topic :=
  RPCBridge.topic_enable _ _ b

/-- From a router that was disabled, `start_` enables the bridges of the allowed
services that have servers. -/
theorem servicesFollow_started {s : State} (h : ServicesFollow env s) (hoff : s.enabled = false) :
    ServicesFollow env (s.started env) := by
  let s₁ := activateAllTopics env { s with enabled := true }
  have hr₁ : s₁.rest = (true, s.allowedTopics, s.currentServices, s.rpcBridges) :=
    activateAllTopics_rest env _
  simp only [State.rest, Prod.mk.injEq] at hr₁
  obtain ⟨he₁, hl₁, hc₁, hb₁⟩ := hr₁
  obtain ⟨hon, hall⟩ := settles_all_services (settles_startService env) s₁
  show ServicesFollow env (s₁.currentServices.keys.foldl (startService env) s₁)
  refine ⟨?_, fun t ht => ?_⟩
  · rw [hon.bridges, hon.services, hb₁, hc₁]
    exact h.keys
  · have ht₁ : t ∈ s₁.currentServices.keys := hon.services ▸ ht
    obtain ⟨b, hs, hb⟩ := h.follow t (hc₁ ▸ ht₁)
    have hs₁ : s₁.service t = s.service t := by simp only [State.service, hc₁, hb₁]
    have hallow : serviceAllowed env (s₁.currentServices.keys.foldl (startService env) s₁) t =
        serviceAllowed env s t := by simp only [serviceAllowed, hon.topics.allowed, hl₁]
    have hnew := hall t ht₁
    rw [hs₁, hs] at hnew
    simp only [hoff, Bool.false_and] at hb
    unfold Follows
    rw [hallow, hon.topics.enabled, he₁, hnew]
    cases ha : serviceAllowed env s t with
    | true =>
      refine ⟨enableBridge env b, by simp, ?_⟩
      have hav : (enableBridge env b).serversAvailable = b.serversAvailable :=
        RPCBridge.serversAvailable_congr fun id => RPCBridge.servers_enable _ _ b id
      rw [hav, enableBridge, RPCBridge.enable_enabled, hb]
      simp
    | false => exact ⟨b, by simp, by simp [hb]⟩

/-- A reload sets flag and bridge of every service anew. -/
theorem servicesFollow_reloadServices {s : State} (hk : s.rpcBridges.keys = s.currentServices.keys)
    (hen : s.enabled = true)
    (hold : ∀ t ∈ s.currentServices.keys, ∃ v b, s.service t = (some v, some b) ∧
      (b.enabled = true → b.serversAvailable = true)) :
    ServicesFollow env (s.currentServices.keys.foldl (reloadService env) s) := by
  obtain ⟨hon, hall⟩ := settles_all_services (settles_reloadService env) s
  refine ⟨by rw [hon.bridges, hon.services, hk], fun t ht => ?_⟩
  have ht₀ : t ∈ s.currentServices.keys := hon.services ▸ ht
  obtain ⟨v, b, hs, hb⟩ := hold t ht₀
  have hnew := hall t ht₀
  have hallow : serviceAllowed env (s.currentServices.keys.foldl (reloadService env) s) t =
      s.allowedTopics.isServiceAllowed env.utils t := by simp only [serviceAllowed, hon.topics.allowed]
  rw [hs] at hnew
  unfold Follows
  rw [hallow, hon.topics.enabled, hen, hnew]
  cases ha : s.allowedTopics.isServiceAllowed env.utils t with
  | true =>
    refine ⟨enableBridge env b, by simp, ?_⟩
    have hav : (enableBridge env b).serversAvailable = b.serversAvailable :=
      RPCBridge.serversAvailable_congr fun id => RPCBridge.servers_enable _ _ b id
    rw [hav, enableBridge, RPCBridge.enable_enabled]
    cases he : b.enabled with
    | true => simp [hb he]
    | false => simp
  | false => exact ⟨b.disable, by simp, by simp [RPCBridge.disable]⟩

/-- The loops over the topics leave the services alone. -/
theorem servicesFollow_reloaded {s : State} (h : ServicesFollow env s) (c : ReloadConfiguration)
    (hon : s.enabled = true) : ServicesFollow env (s.reloaded env c) := by
  have hrest := reloadedTopics_rest env s c
  simp only [State.rest, Prod.mk.injEq] at hrest
  obtain ⟨he₁, -, hc₁, hb₁⟩ := hrest
  apply servicesFollow_reloadServices
  · rw [hb₁, hc₁]
    exact h.keys
  · rw [he₁]
    exact hon
  · intro t ht
    obtain ⟨b, hs, hb⟩ := h.follow t (hc₁ ▸ ht)
    refine ⟨_, b, by simpa only [State.service, hc₁, hb₁] using hs, fun hbe => ?_⟩
    rw [hbe] at hb
    simp only [Bool.true_eq, Bool.and_eq_true] at hb
    exact hb.2

/-- One bridge is replaced by another that follows. -/
theorem servicesFollow_update {s : State} {t : RPCTopic} {f : RPCBridge → RPCBridge}
    (hk : s.rpcBridges.keys = s.currentServices.keys)
    (hothers : ∀ t' ∈ s.currentServices.keys, same t' t = false → Follows env s t')
    (hone : ∀ t' ∈ s.currentServices.keys, same t' t = true →
      ∃ b, s.service t' = (some (serviceAllowed env s t'), some b) ∧
        (f b).enabled = (s.enabled && serviceAllowed env s t' && (f b).serversAvailable)) :
    ServicesFollow env (updateBridge s t f) := by
  have hon := updateBridge_onServices s t f
  have hallow : ∀ t', serviceAllowed env (updateBridge s t f) t' = serviceAllowed env s t' := fun t' => by
    simp only [serviceAllowed, hon.topics.allowed]
  refine ⟨by rw [hon.bridges, hon.services, hk], fun t' ht' => ?_⟩
  have ht₀ : t' ∈ s.currentServices.keys := hon.services ▸ ht'
  unfold Follows
  rw [hallow, hon.topics.enabled]
  simp only [State.service, updateBridge_services, updateBridge_find]
  cases hs : same t' t with
  | true =>
    obtain ⟨b, hb, hen⟩ := hone t' ht₀ hs
    simp only [State.service, Prod.mk.injEq] at hb
    refine ⟨f b, ?_, hen⟩
    rw [hb.1, ← OrdMap.find_congr hs, hb.2]
    rfl
  | false =>
    obtain ⟨b, hb, hen⟩ := hothers t' ht₀ hs
    exact ⟨b, hb, hen⟩

theorem servicesFollow_removedService {s : State} (h : ServicesFollow env s) (t : RPCTopic)
    (id : ParticipantId) (g : GuidPrefix) : ServicesFollow env (removedService s t id g) := by
  apply servicesFollow_update h.keys
  · intro t' ht' _
    exact h.follow t' ht'
  · intro t' ht' _
    obtain ⟨b, hb, hen⟩ := h.follow t' ht'
    refine ⟨b, hb, ?_⟩
    rw [RPCBridge.removedService_enabled, hen]
    -- a server that is left was there before
    have hmono : (b.removedService id g).serversAvailable = true → b.serversAvailable = true := by
      intro ha
      obtain ⟨q, hq⟩ := RPCBridge.serversAvailable_iff.mp ha
      refine RPCBridge.serversAvailable_iff.mpr ⟨q, fun hnone => hq ?_⟩
      rw [RPCBridge.servers_removedService]
      split
      · rename_i hqid
        rw [← hqid, hnone, Finset.erase_empty]
      · exact hnone
    cases ha : (b.removedService id g).serversAvailable with
    | true => simp [hmono ha]
    | false => simp

theorem servicesFollow_ensureService {s : State} (h : ServicesFollow env s) (t : RPCTopic) :
    ServicesFollow env (ensureService env s t) := by
  unfold ensureService
  cases hc : s.rpcBridges.contains t with
  | true => simpa using h
  | false =>
    simp only [Bool.false_eq_true, if_false]
    have hc' : s.currentServices.contains t = false := by
      rw [← OrdMap.contains_congr h.keys]
      exact hc
    refine ⟨OrdMap.keys_set_congr h.keys t _ _, fun t' ht' => ?_⟩
    rcases OrdMap.mem_keys_set_iff.mp ht' with ht' | ⟨rfl, -⟩
    · -- the services that were there are not the new one
      have hs : same t' t = false := by
        by_contra hs
        exact OrdMap.not_mem_keys_of_not_contains hc' (same_symm (by simpa using hs)) ht'
      obtain ⟨b, hb, hen⟩ := h.follow t' ht'
      refine ⟨b, ?_, hen⟩
      simpa [State.service, createNewService, serviceAllowed, hs] using hb
    · refine ⟨{ topic := t' }, by simp [State.service, createNewService, serviceAllowed], ?_⟩
      have hnone : RPCBridge.serversAvailable { topic := t' } = false := rfl
      rw [hnone]
      simp

theorem servicesFollow_discoveredService {s : State} (h : ServicesFollow env s) (t : RPCTopic)
    (id : ParticipantId) (g : GuidPrefix) : ServicesFollow env (discoveredService env s t id g) := by
  unfold discoveredService
  have h₁ := servicesFollow_ensureService h t
  generalize ensureService env s t = s₁ at h₁
  have hon := updateBridge_onServices s₁ t fun b => b.discoveredService id g
  have hallow : ∀ t', serviceAllowed env (updateBridge s₁ t fun b => b.discoveredService id g) t' =
      serviceAllowed env s₁ t' := fun t' => by simp only [serviceAllowed, hon.topics.allowed]
  unfold enableIfActive
  split
  · rename_i hact
    simp only [hon.topics.enabled, updateBridge_services, Bool.and_eq_true] at hact
    obtain ⟨hen, hflag⟩ := hact
    apply servicesFollow_update (by rw [hon.bridges, hon.services, h₁.keys])
    · intro t' ht' hs
      obtain ⟨b, hb, hbe⟩ := h₁.follow t' (hon.services ▸ ht')
      refine ⟨b, ?_, by rw [hallow, hon.topics.enabled]; exact hbe⟩
      rw [hallow]
      simpa only [State.service, updateBridge_services, updateBridge_find, hs, Bool.false_eq_true,
        if_false] using hb
    · intro t' ht' hs
      obtain ⟨b, hb, hbe⟩ := h₁.follow t' (hon.services ▸ ht')
      simp only [State.service, Prod.mk.injEq] at hb
      have ha : serviceAllowed env s₁ t' = true := by
        rw [← OrdMap.find_congr hs, hb.1] at hflag
        simpa using hflag
      refine ⟨b.discoveredService id g, ?_, ?_⟩
      · rw [hallow]
        simp only [State.service, updateBridge_services, updateBridge_find, hs, if_true, hb.1,
          ← OrdMap.find_congr hs, hb.2, Option.map_some]
      · have hav : (enableBridge env (b.discoveredService id g)).serversAvailable =
            (b.discoveredService id g).serversAvailable :=
          RPCBridge.serversAvailable_congr fun q => RPCBridge.servers_enable _ _ _ q
        have hsome : (b.discoveredService id g).serversAvailable = true :=
          RPCBridge.serversAvailable_iff.mpr ⟨id, by simp⟩
        rw [hallow, hon.topics.enabled, hen, ha, hav, hsome, enableBridge, RPCBridge.enable_enabled, hsome]
        simp
  · rename_i hact
    simp only [hon.topics.enabled, updateBridge_services] at hact
    apply servicesFollow_update h₁.keys
    · intro t' ht' _
      exact h₁.follow t' ht'
    · intro t' ht' hs
      obtain ⟨b, hb, hbe⟩ := h₁.follow t' ht'
      refine ⟨b, hb, ?_⟩
      simp only [State.service, Prod.mk.injEq] at hb
      rw [← OrdMap.find_congr hs, hb.1, Option.getD_some] at hact
      have hoff : (s₁.enabled && serviceAllowed env s₁ t') = false := Bool.eq_false_iff.mpr hact
      rw [RPCBridge.discoveredService_enabled, hbe, hoff]
      simp

/-- `stop` is called on an enabled router only when no service bridge is
enabled. -/
def StopsWithoutServices (s : State) (a : Action) : Prop :=
  a = .stop → s.enabled = true → ∀ e ∈ s.rpcBridges.entries, e.2.enabled = false

instance (s : State) (a : Action) : Decidable (StopsWithoutServices s a) :=
  inferInstanceAs (Decidable (a = .stop → s.enabled = true → ∀ e ∈ s.rpcBridges.entries, e.2.enabled = false))

theorem servicesFollow_stopped {s : State} (hoff : ∀ e ∈ s.rpcBridges.entries, e.2.enabled = false)
    (h : ServicesFollow env s) : ServicesFollow env s.stopped := by
  have hrest := stopped_rest s
  simp only [State.rest, Prod.mk.injEq] at hrest
  obtain ⟨he', hl, hc, hb⟩ := hrest
  refine ⟨by rw [hb, hc]; exact h.keys, fun t ht => ?_⟩
  obtain ⟨b, hs, -⟩ := h.follow t (hc ▸ ht)
  refine ⟨b, by simpa only [State.service, serviceAllowed, hl, hc, hb] using hs, ?_⟩
  simp only [State.service, Prod.mk.injEq] at hs
  obtain ⟨t', -, hmem⟩ := OrdMap.mem_of_find hs.2
  rw [hoff _ hmem, he']
  simp

theorem servicesFollow_step {s s' : State} {a : Action} (hC : StopsWithoutServices s a)
    (h : ServicesFollow env s) (hs : step env s a = some s') : ServicesFollow env s' := by
  cases step_move hs with
  | keep => exact h
  | start hoff => exact servicesFollow_started h hoff
  | stop hon => exact servicesFollow_stopped (hC rfl hon) h
  | reload c hon => exact servicesFollow_reloaded h c hon
  | topic e => exact servicesFollow_rest h (discoveredTopic_rest s e.topic)
  | server => exact servicesFollow_discoveredService h _ _ _
  | serverRemoved => exact servicesFollow_removedService h _ _ _

theorem servicesFollow_create (env : Env) (c : ReloadConfiguration) : ServicesFollow env (create env c) := by
  refine servicesFollow_rest (s := { allowedTopics := AllowedTopicList.create c.allowlist c.blocklist }) ?_
    (foldl_rest discoveredTopic_rest _ _)
  exact ⟨rfl, fun t ht => absurd ht (by simp [OrdMap.keys, OrdMap.empty])⟩

/-- Every service is flagged as the lists say, its bridge is enabled exactly when
the router is enabled, the service is allowed and a server is known in some
participant, and with the router disabled no service bridge is enabled. -/
def ServicesActive (env : Env) (s : State) : Prop :=
  (∀ t ∈ s.currentServices.keys, s.currentServices.find t = some (serviceAllowed env s t) ∧
    ∃ b, s.rpcBridges.find t = some b ∧
      (b.enabled = true ↔ s.enabled = true ∧ serviceAllowed env s t = true ∧ ∃ id, b.servers id ≠ ∅)) ∧
  (s.enabled = false → ∀ e ∈ s.rpcBridges.entries, e.2.enabled = false)

theorem ServicesFollow.active {s : State} (h : ServicesFollow env s) : ServicesActive env s := by
  refine ⟨fun t ht => ?_, fun hoff => ?_⟩
  · obtain ⟨b, hs, hb⟩ := h.follow t ht
    simp only [State.service, Prod.mk.injEq] at hs
    refine ⟨hs.1, b, hs.2, ?_⟩
    rw [hb, Bool.and_eq_true, Bool.and_eq_true, RPCBridge.serversAvailable_iff, and_assoc]
  · rintro ⟨t, b⟩ hmem
    have ht : t ∈ s.currentServices.keys := h.keys ▸ OrdMap.mem_keys_of_mem hmem
    obtain ⟨b', hs, hb⟩ := h.follow t ht
    simp only [State.service, Prod.mk.injEq, OrdMap.find_of_mem hmem, Option.some.injEq] at hs
    rw [hs.2, hb, hoff]
    simp

/-- A run of the router has its services active as they should be in every state
exactly when `stop` is never called while a service bridge is enabled. -/
theorem services_active_iff_stopsWithoutServices (env : Env) (c : ReloadConfiguration) (as : List Action) :
    Visits (step env) (ServicesActive env) (create env c) as ↔
      Along (step env) StopsWithoutServices (create env c) as := by
  refine visits_iff_along (fun s h => h.active) (fun s a s' hC h hs => servicesFollow_step hC h hs) ?_
    (servicesFollow_create env c) as
  intro s a s' _ hs hactive ha he
  subst ha
  rw [step_stop he] at hs
  cases hs
  have hrest := stopped_rest s
  simp only [State.rest, Prod.mk.injEq] at hrest
  obtain ⟨he', -, -, hb⟩ := hrest
  rw [← hb]
  exact hactive.2 he'

/-! A server is discovered in an enabled router, and the router is stopped. -/

def addTwoInts : DdsTopic := { topicName := "rq/add_two_intsRequest", typeName := "AddTwoInts_Request_" }

def stoppedWithService : List Action := [.start, .discovered (readerOf addTwoInts ⟨2, 1⟩), .stop]

theorem service_enabled_after_stop :
    ¬ ∀ (env : Env) (c : ReloadConfiguration) (as : List Action),
      Visits (step env) (ServicesActive env) (create env c) as := by
  intro h
  have hrun : ∃ s, run (step plainEnv) (create plainEnv {}) stoppedWithService = some s ∧
      s.enabled = false ∧ ¬ ∀ e ∈ s.rpcBridges.entries, e.2.enabled = false := ⟨_, rfl, by decide⟩
  obtain ⟨s, hrun, hoff, hon⟩ := hrun
  exact hon ((visits_last (h plainEnv {} stoppedWithService) hrun).2 hoff)

end DDSRouter.Router
