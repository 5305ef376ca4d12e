import DDSRouter.RouterBuiltin

/-!
# Bridges of builtin topics

A topic of the router is the one that came first among those with its name and
type, and its bridge is created with that topic. The builtin topics come before
all others, so whatever is discovered or reloaded later, the bridge of a builtin topic
has the QoS of the configuration. Such a bridge can always come about: a router that
is started and then has its lists emptied has one for each of its topics.
-/
namespace DDSRouter.Router

open Runs WeakOrder

/-- Every one of the given topics has a topic of the router that is among them, and
bridges have topics of the router. -/
structure Rooted (ts : List DdsTopic) (s : State) : Prop where
  topics : ∀ t ∈ ts, ∃ k ∈ s.currentTopics.keys, k ∈ ts ∧ same t k = true
  bridges : ∀ t b, s.bridges.find t = some b → b.topic ∈ s.currentTopics.keys ∧ same t b.topic = true

section Rooted

variable {ts : List DdsTopic} {s s' : State} {t : DdsTopic} {env : Env}

/-- The topics are the same, and each bridge has an old topic or that of its key. -/
theorem rooted_of_bridges (h : Rooted ts s) (hk : s'.currentTopics.keys = s.currentTopics.keys)
    (hb : ∀ q b, s'.bridges.find q = some b →
      b.topic ∈ s.currentTopics.keys ∧ same q b.topic = true) : Rooted ts s' := by
  constructor
  · rw [hk]
    exact h.topics
  · rw [hk]
    exact hb

/-- The bridges after one of them is set, to one with a topic of the router. -/
theorem Rooted.setBridge (h : Rooted ts s) (b' : TopicBridge) (hmem : b'.topic ∈ s.currentTopics.keys)
    (hsame : same t b'.topic = true) {q : DdsTopic} {b : TopicBridge} (hb : (s.bridges.set t b').find q = some b) :
    b.topic ∈ s.currentTopics.keys ∧ same q b.topic = true := by
  rw [OrdMap.find_set] at hb
  split at hb
  · rename_i hq
    cases hb
    exact ⟨hmem, same_trans hq hsame⟩
  · exact h.bridges q b hb

theorem rooted_activateTopic (h : Rooted ts s) (ht : t ∈ s.currentTopics.keys) : Rooted ts (activateTopic s t) := by
  apply rooted_of_bridges h ((activateTopic_switched s t).currentKeys ht)
  intro q b hb
  unfold activateTopic at hb
  simp only at hb
  split at hb
  · exact h.setBridge ⟨t, true⟩ ht (same_refl t) hb
  · rename_i b₀ hb₀
    obtain ⟨hmem, hsame⟩ := h.bridges t b₀ hb₀
    exact h.setBridge { b₀ with enabled := true } hmem hsame hb

theorem rooted_deactivateTopic (h : Rooted ts s) (ht : t ∈ s.currentTopics.keys) :
    Rooted ts (deactivateTopic s t) := by
  apply rooted_of_bridges h ((deactivateTopic_switched s t).currentKeys ht)
  intro q b hb
  unfold deactivateTopic at hb
  simp only at hb
  split at hb
  · exact h.bridges q b hb
  · rename_i b₀ hb₀
    obtain ⟨hmem, hsame⟩ := h.bridges t b₀ hb₀
    exact h.setBridge { b₀ with enabled := false } hmem hsame hb

/-- What a loop over topics of the router keeps. -/
structure RootedIn (ts : List DdsTopic) (s₀ s : State) : Prop where
  rooted : Rooted ts s
  keys : s.currentTopics.keys = s₀.currentTopics.keys

theorem rootedIn_foldl {f : State → DdsTopic → State}
    (hf : ∀ s t, Rooted ts s → t ∈ s.currentTopics.keys → RootedIn ts s (f s t)) {l : List DdsTopic}
    (h : Rooted ts s) (hl : ∀ t ∈ l, t ∈ s.currentTopics.keys) : Rooted ts (l.foldl f s) := by
  induction l generalizing s with
  | nil => exact h
  | cons t l ih =>
    have ht := hf s t h (hl t List.mem_cons_self)
    refine ih ht.rooted fun q hq => ?_
    rw [ht.keys]
    exact hl q (List.mem_cons_of_mem _ hq)

theorem rootedIn_activateTopic (h : Rooted ts s) (ht : t ∈ s.currentTopics.keys) : RootedIn ts s (activateTopic s t) :=
  ⟨rooted_activateTopic h ht, (activateTopic_switched s t).currentKeys ht⟩

theorem rootedIn_deactivateTopic (h : Rooted ts s) (ht : t ∈ s.currentTopics.keys) :
    RootedIn ts s (deactivateTopic s t) :=
  ⟨rooted_deactivateTopic h ht, (deactivateTopic_switched s t).currentKeys ht⟩

theorem rootedIn_activateIfAllowed (h : Rooted ts s) (ht : t ∈ s.currentTopics.keys) :
    RootedIn ts s (activateIfAllowed env s t) := by
  unfold activateIfAllowed
  split
  · exact rootedIn_activateTopic h ht
  · exact ⟨h, rfl⟩

theorem rootedIn_reloadTopic (h : Rooted ts s) (ht : t ∈ s.currentTopics.keys) :
    RootedIn ts s (reloadTopic env s t) := by
  unfold reloadTopic
  split
  · split
    · exact rootedIn_deactivateTopic h ht
    · exact ⟨h, rfl⟩
  · split
    · exact rootedIn_activateTopic h ht
    · exact ⟨h, rfl⟩

theorem rooted_sameTopics (h : Rooted ts s) (hs : SameTopics s s') : Rooted ts s' := by
  refine rooted_of_bridges h (by rw [hs.topics]) fun q b hb => ?_
  rw [hs.bridges] at hb
  exact h.bridges q b hb

/-- A topic that is taken up is added to the others. -/
theorem rooted_set (h : Rooted ts s) (t : DdsTopic) :
    Rooted ts { s with currentTopics := s.currentTopics.set t false } := by
  have hold : ∀ k ∈ s.currentTopics.keys, k ∈ (s.currentTopics.set t false).keys := by
    intro k hk
    rw [OrdMap.mem_keys_set_iff]
    exact .inl hk
  constructor
  · intro q hq
    obtain ⟨k, hk, hmem, hsame⟩ := h.topics q hq
    exact ⟨k, hold k hk, hmem, hsame⟩
  · intro q b hb
    obtain ⟨hmem, hsame⟩ := h.bridges q b hb
    exact ⟨hold _ hmem, hsame⟩

theorem rooted_discoveredTopic (h : Rooted ts s) (t : DdsTopic) : Rooted ts (discoveredTopic env s t) := by
  unfold discoveredTopic
  split
  · exact h
  · rename_i hc
    have hmem : t ∈ (s.currentTopics.set t false).keys :=
      OrdMap.mem_keys_set_iff.mpr (.inr ⟨rfl, by simpa using hc⟩)
    simp only
    split
    · exact rooted_activateTopic (rooted_set h t) hmem
    · exact rooted_set h t

theorem rooted_foldl_discoveredTopic (h : Rooted ts s) (l : List DdsTopic) :
    Rooted ts (l.foldl (discoveredTopic env) s) := by
  induction l generalizing s with
  | nil => exact h
  | cons t l ih => exact ih (rooted_discoveredTopic h t)

theorem rooted_step {a : Action} (h : Rooted ts s) (hs : step env s a = some s') : Rooted ts s' := by
  cases step_move hs with
  | keep => exact h
  | start =>
    refine rooted_sameTopics ?_ (foldl_sameTopics (startService_sameTopics env) _ _)
    exact rootedIn_foldl (fun _ _ => rootedIn_activateIfAllowed) (s := { s with enabled := true })
      ⟨h.topics, h.bridges⟩ fun _ ht => ht
  | stop =>
    exact rootedIn_foldl (fun _ _ => rootedIn_deactivateTopic) (s := { s with enabled := false })
      ⟨h.topics, h.bridges⟩ fun _ ht => ht
  | reload c =>
    refine rooted_sameTopics ?_ (foldl_sameTopics (reloadService_sameTopics env) _ _)
    apply rooted_foldl_discoveredTopic
    exact rootedIn_foldl (fun _ _ => rootedIn_reloadTopic)
      (s := { s with allowedTopics := AllowedTopicList.create c.allowlist c.blocklist })
      ⟨h.topics, h.bridges⟩ fun _ ht => ht
  | topic e => exact rooted_discoveredTopic h e.topic
  | server => exact rooted_sameTopics h (discoveredService_sameTopics s _ _ _)
  | serverRemoved => exact rooted_sameTopics h (updateBridge_sameTopics s _ _)

/-- The topics of a router as it is constructed are builtin topics. -/
theorem keys_foldl_discoveredTopic {l : List DdsTopic} {k : DdsTopic}
    (hk : k ∈ (l.foldl (discoveredTopic env) s).currentTopics.keys) : k ∈ s.currentTopics.keys ∨ k ∈ l := by
  induction l generalizing s with
  | nil => exact .inl hk
  | cons t l ih =>
    rcases ih hk with hk | hk
    · have hnew : k ∈ s.currentTopics.keys ∨ k = t := by
        unfold discoveredTopic at hk
        split at hk
        · exact .inl hk
        · rename_i hc
          have hmem : t ∈ (s.currentTopics.set t false).keys :=
            OrdMap.mem_keys_set_iff.mpr (.inr ⟨rfl, by simpa using hc⟩)
          simp only at hk
          split at hk
          · rw [(activateTopic_switched _ t).currentKeys hmem] at hk
            exact (OrdMap.mem_keys_set hk).symm
          · exact (OrdMap.mem_keys_set hk).symm
      rcases hnew with hk | rfl
      · exact .inl hk
      · exact .inr List.mem_cons_self
    · exact .inr (List.mem_cons_of_mem _ hk)

/-- No topic is active yet, so there is no bridge. -/
theorem bridges_foldl_discoveredTopic (he : s.enabled = false) (l : List DdsTopic) :
    (l.foldl (discoveredTopic env) s).bridges = s.bridges := by
  induction l generalizing s with
  | nil => rfl
  | cons t l ih =>
    have hone : (discoveredTopic env s t).bridges = s.bridges ∧ (discoveredTopic env s t).enabled = false := by
      unfold discoveredTopic
      split
      · exact ⟨rfl, he⟩
      · simp [he]
    rw [List.foldl_cons, ih hone.2, hone.1]

theorem rooted_create (env : Env) (c : ReloadConfiguration) : Rooted c.builtinTopics (create env c) := by
  constructor
  · intro t ht
    have hc : (create env c).currentTopics.contains t = true := by
      rw [create, contains_foldl_discoveredTopic, Bool.or_eq_true, List.any_eq_true]
      exact .inl ⟨t, ht, same_refl t⟩
    obtain ⟨v, hv⟩ := Option.isSome_iff_exists.mp hc
    obtain ⟨k, hsame, hmem⟩ := OrdMap.mem_of_find hv
    have hk := OrdMap.mem_keys_of_mem hmem
    rcases keys_foldl_discoveredTopic hk with hold | hnew
    · simp [OrdMap.keys, OrdMap.empty] at hold
    · exact ⟨k, hk, hnew, hsame⟩
  · intro t b hb
    rw [create, bridges_foldl_discoveredTopic rfl] at hb
    simp at hb

/-- In every state that a router reaches, the bridge of a builtin topic has one of the
builtin topics of the configuration. -/
theorem bridge_topic_builtin {c : ReloadConfiguration} {as : List Action} {b : TopicBridge}
    (hr : run (step env) (create env c) as = some s) (ht : t ∈ c.builtinTopics) (hb : s.bridges.find t = some b) :
    b.topic ∈ c.builtinTopics ∧ same t b.topic = true := by
  have h : Rooted c.builtinTopics s := run_invariant (fun _ _ _ hI hs => rooted_step hI hs) (rooted_create env c) hr
  obtain ⟨k, hk, hmem, hsame⟩ := h.topics t ht
  obtain ⟨hbk, hbsame⟩ := h.bridges t b hb
  have heq : k = b.topic := OrdMap.eq_of_same hk hbk (same_trans (same_symm hsame) hbsame)
  exact ⟨heq ▸ hmem, hbsame⟩

end Rooted

/-! ### A bridge for every builtin topic -/

section Exists

variable {env : Env} {s : State}

theorem start_enabled (env : Env) (s : State) : (start env s).2.enabled = true := by
  unfold start
  split
  · simp only
    rw [(foldl_sameTopics (startService_sameTopics env) _ _).enabled]
    exact congrArg Prod.fst (activateAllTopics_rest env { s with enabled := true })
  · rename_i he
    simpa using he

theorem topicAllowed_empty (l : AllowedTopicList) (t : DdsTopic)
    (h : (AllowedTopicList.create [] []).equal env.utils.toFuzzyUtils l = true ∨ AllowedTopicList.create [] [] = l) :
    l.isTopicAllowed env.utils t = true := by
  have hall : (AllowedTopicList.create [] []).isTopicAllowed env.utils t = true := rfl
  rcases h with heq | rfl
  · rw [← AllowedTopicList.isTopicAllowed_congr heq (fun _ hf => absurd hf List.not_mem_nil)
      (fun _ hf => absurd hf List.not_mem_nil)]
    exact hall
  · exact hall

/-- Empty lists allow every topic, and they are in force after a reload also where it
finds nothing new. -/
theorem reload_empty (env : Env) (he : s.enabled = true) :
    ∃ code s', reloadConfiguration env s {} = some (code, s') ∧ s'.enabled = true ∧ ∀ t, topicAllowed env s' t = true := by
  have hsome : (reloadConfiguration env s {}).isSome = true := by
    have hvalid : (!({} : ReloadConfiguration).isValid) = false := rfl
    unfold reloadConfiguration
    rw [hvalid, if_neg Bool.false_ne_true, if_pos he]
    simp only
    split <;> rfl
  obtain ⟨⟨code, s'⟩, hr⟩ := Option.isSome_iff_exists.mp hsome
  refine ⟨code, s', hr, ?_⟩
  obtain ⟨-, hoff, -⟩ | ⟨-, -, heq, -, rfl⟩ | ⟨-, -, rfl⟩ := reload_cases hr
  · rw [he] at hoff
    cases hoff
  · exact ⟨he, fun t => topicAllowed_empty _ t (.inl heq)⟩
  · have hrest := reloadedTopics_rest env s {}
    simp only [State.rest, Prod.mk.injEq] at hrest
    have hsame := foldl_sameTopics (reloadService_sameTopics env) (s.reloadedTopics env {}).currentServices.keys
      (s.reloadedTopics env {})
    refine ⟨(hsame.enabled.trans hrest.1).trans he, fun t => topicAllowed_empty _ t (.inr ?_)⟩
    exact (hsame.allowed.trans hrest.2.1).symm

/-- There is a run in which the builtin topic has a bridge. -/
theorem exists_bridge (env : Env) {c : ReloadConfiguration} {t : DdsTopic} (ht : t ∈ c.builtinTopics) :
    ∃ as s b, run (step env) (create env c) as = some s ∧ s.bridges.find t = some b := by
  have h₀ := topicsActive_create env c
  obtain ⟨code, s, hr, he, hallowed⟩ := reload_empty env (start_enabled env (create env c))
  have hrun : run (step env) (create env c) [.start, .reload {}] = some s := by
    simp [run, step, hr]
  have h : TopicsActive env s := run_invariant (fun _ _ _ hI hs => topicsActive_step hI hs) h₀ hrun
  have hroot : Rooted c.builtinTopics s :=
    run_invariant (fun _ _ _ hI hs => rooted_step hI hs) (rooted_create env c) hrun
  obtain ⟨k, hk, -, hsame⟩ := hroot.topics t ht
  have hon : s.bridgeEnabled k = true := by
    rw [h.active k hk, he, hallowed k]
    rfl
  obtain ⟨b, hb, -⟩ := bridgeEnabled_iff.mp hon
  exact ⟨[.start, .reload {}], s, b, hrun, by rw [OrdMap.find_congr hsame, hb]⟩

end Exists

end DDSRouter.Router
