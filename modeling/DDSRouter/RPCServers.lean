import DDSRouter.RPCRouting

/-!
# Requests go where servers are

The flag of a registry is a copy of whether its participant has servers. It is
made when the bridge is initialised and when a server is discovered. Nothing
clears it: the removal of a server leaves the registries alone, so from the
removal of a participant's last server on requests are still sent through it.
As long as no last server is removed, copy and original agree in every run.
-/
namespace DDSRouter.RPC

open Threads Runs

/-- Once the bridge is initialised, the registry of a participant is enabled
exactly when the participant has a server. -/
def FlagsAgree (b : RPCBridge) : Prop :=
  b.init = true → ∀ id, b.registryEnabled id = true ↔ b.servers id ≠ ∅

/-- A request is only written through a participant with a server. -/
def Event.toServer : Event → Bool
  | .requestWritten _ _ _ _ _ served => served
  | .requestTaken _ _ _ | .replyWritten _ _ _ _ => true

def RequestsServed (s : State) : Prop := FlagsAgree s.bridge ∧ ∀ e ∈ s.log, e.toServer = true

/-- The action does not remove the last server of a participant of a bridge that
is initialised. -/
def KeepsAServer (s : State) : Action → Prop
  | .removed id g => s.bridge.init = true → s.bridge.servers id ≠ {g}
  | .arrive _ _ | .discovered _ _ | .enable _ | .disable | .disableCall | .control | .start _
  | .transmit _ _ => True

/-- The participant that a task is about to write a request through. -/
def TransmitPc.target : TransmitPc → Option ParticipantId
  | .send _ _ _ id _ => some id
  | .lock | .test | .take | .fanOut _ _ _ _ | .lookup _ | .reply _ _ | .erase _ | .release => none

structure Known (db : Participants) (b : RPCBridge) : Prop where
  agree : FlagsAgree b
  registries : b.init = true → ∀ id ∈ db.ids, b.serviceRegistries.contains id = true
  flagged : ∀ id, b.registryEnabled id = true → id ∈ db.ids
  serving : ∀ id, b.servers id ≠ ∅ → id ∈ db.ids
  enabled : b.enabled = true → b.init = true

structure Served (db : Participants) (s : State) : Prop where
  known : Known db s.bridge
  writes : ∀ e ∈ s.log, e.toServer = true
  queued : ∀ key ∈ s.queued, s.bridge.init = true
  running : ∀ t ∈ s.running, s.bridge.init = true
  sends : ∀ t ∈ s.running, ∀ id, t.pc.target = some id → s.bridge.servers id ≠ ∅

section Bridge

variable {db : Participants} {b b' : RPCBridge}

theorem known_discovered (h : Known db b) {id : ParticipantId} (g : GuidPrefix) (hid : id ∈ db.ids) :
    Known db (b.discoveredService id g) := by
  have hflag := RPCBridge.registryEnabled_discoveredService (fun hi => h.registries hi id hid) g
  constructor
  · intro hi q
    rw [RPCBridge.discoveredService_init] at hi
    rw [hflag, RPCBridge.servers_discoveredService]
    by_cases hq : q = id
    · simp [hi, hq]
    · simp [hq, h.agree hi q]
  · intro hi q hq
    rw [RPCBridge.discoveredService_init] at hi
    rw [RPCBridge.contains_discoveredService]
    exact h.registries hi q hq
  · intro q hq
    rw [hflag] at hq
    split at hq
    · rename_i heq
      exact heq.2 ▸ hid
    · exact h.flagged q hq
  · intro q hq
    rw [RPCBridge.servers_discoveredService] at hq
    split at hq
    · rename_i heq
      exact heq ▸ hid
    · exact h.serving q hq
  · intro he
    rw [RPCBridge.discoveredService_enabled] at he
    rw [RPCBridge.discoveredService_init]
    exact h.enabled he

/-- A removal that leaves the participant a server, or that finds none there. -/
theorem servers_eraseServer_iff {id : ParticipantId} {g : GuidPrefix} (hne : b.servers id ≠ {g})
    (q : ParticipantId) : (b.eraseServer id g).servers q ≠ ∅ ↔ b.servers q ≠ ∅ := by
  rw [RPCBridge.servers_eraseServer]
  split
  · rename_i hq
    rw [hq, ne_eq, Finset.erase_eq_empty_iff, not_or]
    exact ⟨fun h => h.1, fun h => ⟨h, hne⟩⟩
  · rfl

theorem known_removed (h : Known db b) (id : ParticipantId) (g : GuidPrefix)
    (hne : b.init = true → b.servers id ≠ {g}) : Known db (b.eraseServer id g) := by
  constructor
  · intro hi q
    rw [servers_eraseServer_iff (hne hi) q]
    exact h.agree hi q
  · exact h.registries
  · exact h.flagged
  · intro q hq
    rw [RPCBridge.servers_eraseServer] at hq
    split at hq
    · rename_i heq
      subst heq
      exact h.serving q fun h₀ => hq (by simp [h₀])
    · exact h.serving q hq
  · exact h.enabled

theorem known_enable (h : Known db b) (created : ParticipantId → Creation) :
    Known db (b.enable created db.ids) := by
  have hs := RPCBridge.servers_initNts created db.ids b
  have hserving : ∀ q, (RPCBridge.initNts created db.ids b).1.servers q ≠ ∅ → q ∈ db.ids := by
    intro q hq
    rw [hs] at hq
    exact h.serving q hq
  have hother : ∀ q, (RPCBridge.initNts created db.ids b).1.registryEnabled q = true → q ∈ db.ids := by
    intro q hq
    rcases RPCBridge.registryEnabled_of_initNts hq with hq | hq
    · exact hq
    · exact h.flagged q hq
  obtain he | ⟨hi, he⟩ | ⟨hi, hok, he⟩ | ⟨hi, hok, he⟩ := RPCBridge.enable_cases created db.ids b
  · rw [he]
    exact h
  · rw [he]
    exact ⟨h.agree, h.registries, h.flagged, h.serving, fun _ => hi⟩
  · -- every RTPS participant gets its registry here, and the others have no server
    have hflag := RPCBridge.registryEnabled_initNts hok
    rw [he]
    have hagree : ∀ q, (RPCBridge.initNts created db.ids b).1.registryEnabled q = true ↔
        (RPCBridge.initNts created db.ids b).1.servers q ≠ ∅ := by
      intro q
      by_cases hq : q ∈ db.ids
      · rw [hflag, if_pos hq, decide_eq_true_iff, hs]
      · exact ⟨fun hon => absurd (hother q hon) hq, fun hon => absurd (hserving q hon) hq⟩
    constructor
    · exact fun _ => hagree
    · exact fun _ q hq => RPCBridge.contains_initNts hok (.inl hq)
    · exact hother
    · exact hserving
    · intro _
      exact (RPCBridge.initNts_init created db.ids b).trans (by rw [hok, Bool.or_true])
  · have hinit : (RPCBridge.initNts created db.ids b).1.init = false := by
      rw [RPCBridge.initNts_init, hi, hok, Bool.or_false]
    rw [he]
    constructor
    · intro hi'
      simp [hinit] at hi'
    · intro hi'
      simp [hinit] at hi'
    · exact hother
    · exact hserving
    · intro hen
      rw [RPCBridge.initNts_enabled] at hen
      simp [h.enabled hen] at hi

theorem known_move {a : Action} (h : Known db b) (hm : BridgeMove db b a b')
    (hc : ∀ id g, a = .removed id g → b.init = true → b.servers id ≠ {g}) : Known db b' := by
  cases hm with
  | keep => exact h
  | discovered id g hid => exact known_discovered h g hid
  | removed id g => exact known_removed h id g (hc id g rfl)
  | enable created => exact known_enable h created
  | disable =>
    refine ⟨h.agree, h.registries, h.flagged, h.serving, fun he => ?_⟩
    simp [RPCBridge.disable] at he

theorem init_move {a : Action} (hm : BridgeMove db b a b') (hi : b.init = true) : b'.init = true := by
  cases hm with
  | keep => exact hi
  | discovered id g hid => rwa [RPCBridge.discoveredService_init]
  | removed id g => exact hi
  | disable => exact hi
  | enable created =>
    obtain he | ⟨-, he⟩ | ⟨hi', -, -⟩ | ⟨hi', -, -⟩ := RPCBridge.enable_cases created db.ids b
    · rwa [he]
    · rw [he]
      exact hi
    · simp [hi] at hi'
    · simp [hi] at hi'

/-- A participant that has a server keeps one. -/
theorem servers_move {a : Action} (hm : BridgeMove db b a b')
    (hc : ∀ id g, a = .removed id g → b.servers id ≠ {g}) {q : ParticipantId} (hq : b.servers q ≠ ∅) :
    b'.servers q ≠ ∅ := by
  cases hm with
  | keep => exact hq
  | discovered id g hid =>
    rw [RPCBridge.servers_discoveredService]
    split
    · exact Finset.insert_ne_empty g _
    · exact hq
  | removed id g => exact (servers_eraseServer_iff (hc id g rfl) q).mpr hq
  | enable created => rwa [RPCBridge.servers_enable]
  | disable => exact hq

theorem known_mapRegistry (h : Known db b) (id : ParticipantId) {f : ServiceRegistry → ServiceRegistry}
    (hf : ∀ r, (f r).enabled = r.enabled) : Known db (b.mapRegistry id f) := by
  constructor
  · intro hi q
    rw [RPCBridge.mapRegistry_init] at hi
    rw [RPCBridge.registryEnabled_mapRegistry hf, RPCBridge.servers_mapRegistry]
    exact h.agree hi q
  · intro hi q hq
    rw [RPCBridge.mapRegistry_init] at hi
    rw [RPCBridge.contains_mapRegistry]
    exact h.registries hi q hq
  · intro q hq
    rw [RPCBridge.registryEnabled_mapRegistry hf] at hq
    exact h.flagged q hq
  · intro q hq
    rw [RPCBridge.servers_mapRegistry] at hq
    exact h.serving q hq
  · intro he
    rw [RPCBridge.mapRegistry_enabled] at he
    rw [RPCBridge.mapRegistry_init]
    exact h.enabled he

end Bridge

section Preservation

variable {db : Participants} {s s' : State}

theorem served_create (db : Participants) (topic : RPCTopic) : Served db (create db topic) := by
  refine ⟨⟨?_, ?_, ?_, ?_, ?_⟩, ?_, ?_, ?_, ?_⟩ <;>
    simp [create, FlagsAgree, RPCBridge.registryEnabled, RPCBridge.servers]

theorem served_outer {a : Action} (h : Served db s) (hc : KeepsAServer s a) (ho : Outer db s a s') :
    Served db s' := by
  have hkeep : ∀ id g, a = .removed id g → s.bridge.init = true → s.bridge.servers id ≠ {g} := by
    intro id g ha
    subst ha
    exact hc
  constructor
  · exact known_move h.known ho.bridge hkeep
  · rw [ho.log]
    exact h.writes
  · intro key hkey
    rcases ho.queued key hkey with hold | hen
    · exact init_move ho.bridge (h.queued key hold)
    · exact init_move ho.bridge (h.known.enabled hen)
  · intro t ht
    rcases ho.running t ht with hold | ⟨-, hkey⟩
    · exact init_move ho.bridge (h.running t hold)
    · exact init_move ho.bridge (h.queued t.key hkey)
  · intro t ht id hid
    rcases ho.running t ht with hold | ⟨hpc, -⟩
    · have hi := h.running t hold
      exact servers_move ho.bridge (fun q g ha => hkeep q g ha hi) (h.sends t hold id hid)
    · simp [hpc, TransmitPc.target] at hid

/-- A step of a task that changes at most the entries of a registry. -/
theorem served_task {i : Nat} {t : Task} {s₁ : State} {x : Option TransmitPc} (h : Served db s)
    (hat : s.running[i]? = some t) (hk : Known db s₁.bridge) (hi : s₁.bridge.init = s.bridge.init)
    (hs : ∀ id, s₁.bridge.servers id = s.bridge.servers id) (hq : s₁.queued = s.queued)
    (hw : ∀ e ∈ s₁.log, e.toServer = true)
    (hx : ∀ pc id, x = some pc → pc.target = some id → s.bridge.servers id ≠ ∅) :
    Served db { s₁ with running := advance s.running i (x.map (Task.mk t.key)) } := by
  constructor
  · exact hk
  · exact hw
  · intro key hkey
    rw [hi]
    exact h.queued key (hq ▸ hkey)
  · intro _ _
    rw [hi]
    exact h.running t (mem_of_at hat)
  · intro t' ht' id hid
    rw [hs]
    rcases mem_advance ht' with hold | hnew
    · exact h.sends t' hold id hid
    · obtain ⟨pc, hpc, rfl⟩ := Option.map_eq_some_iff.mp hnew
      exact hx pc id hpc hid

/-- The same, where the bridge and the log stay as they are. -/
theorem served_quiet {i : Nat} {t : Task} {s₁ : State} {x : Option TransmitPc} (h : Served db s)
    (hat : s.running[i]? = some t) (hb : s₁.bridge = s.bridge) (hq : s₁.queued = s.queued)
    (hl : s₁.log = s.log)
    (hx : ∀ pc id, x = some pc → pc.target = some id → s.bridge.servers id ≠ ∅) :
    Served db { s₁ with running := advance s.running i (x.map (Task.mk t.key)) } := by
  refine served_task h hat ?_ (by rw [hb]) (fun id => by rw [hb]) hq ?_ hx
  · rw [hb]
    exact h.known
  · rw [hl]
    exact h.writes

theorem toServer_append {log : List Event} {e : Event} (h : ∀ e ∈ log, e.toServer = true)
    (he : e.toServer = true) : ∀ e' ∈ log ++ [e], e'.toServer = true := by
  intro e' he'
  rcases List.mem_append.mp he' with hold | hnew
  · exact h e' hold
  · rw [List.mem_singleton] at hnew
    rw [hnew]
    exact he

theorem served_transmit {i : Nat} {t : Task} {s₁ : State} {x : Option TransmitPc} (h : Served db s)
    (hat : s.running[i]? = some t) (hm : TransmitMove db s t.key t.pc s₁ x) :
    Served db { s₁ with running := advance s.running i (x.map (Task.mk t.key)) } := by
  have hi := h.running t (mem_of_at hat)
  have hsend := h.sends t (mem_of_at hat)
  generalize hpc : t.pc = pc at hm hsend
  cases hm with
  | leave => exact served_quiet h hat rfl rfl rfl fun pc id hx => by cases hx
  | lock | stay | notTaken | sentAll | skip | known | unknown | release =>
    refine served_quiet h hat rfl rfl rfl fun pc id hx hid => ?_
    cases hx
    cases hid
  | response c history pc' ht hpc' =>
    refine served_quiet h hat rfl rfl rfl fun pc id hx hid => ?_
    cases hx
    rcases hpc' with rfl | rfl <;> cases hid
  | request n c history pc' ht hpc' =>
    refine served_task h hat h.known rfl (fun _ => rfl) rfl (toServer_append h.writes rfl) ?_
    intro pc id hx hid
    cases hx
    rcases hpc' with rfl | rfl <;> cases hid
  | choose n data identity id rest he =>
    refine served_quiet h hat rfl rfl rfl fun pc id' hx hid => ?_
    cases hx
    cases hid
    exact (h.known.agree hi id).mp he
  | send n data identity id rest sent =>
    have hserver := hsend id rfl
    have hwrites := toServer_append h.writes (e := .requestWritten data.participantReceiver n id
      (sendRequest s n data identity id sent).2 sent (decide (s.bridge.servers id ≠ ∅))) (by simpa [Event.toServer] using hserver)
    cases sent with
    | none =>
      refine served_task h hat h.known rfl (fun _ => rfl) rfl hwrites fun pc id hx hid => ?_
      cases hx
      cases hid
    | some k =>
      refine served_task h hat (known_mapRegistry h.known id fun r => r.add_enabled k _) ?_ ?_ rfl hwrites ?_
      · exact RPCBridge.mapRegistry_init _ _ _
      · exact fun q => RPCBridge.servers_mapRegistry _ _ _ _
      · intro pc id hx hid
        cases hx
        cases hid
  | reply data entry ok pc' hpc' =>
    refine served_task h hat h.known rfl (fun _ => rfl) rfl (toServer_append h.writes rfl) ?_
    intro pc id hx hid
    cases hx
    rw [hpc'] at hid
    split at hid <;> cases hid
  | erase idx =>
    refine served_task h hat (known_mapRegistry h.known _ fun r => r.erase_enabled idx) ?_ ?_ rfl h.writes ?_
    · exact RPCBridge.mapRegistry_init _ _ _
    · exact fun q => RPCBridge.servers_mapRegistry _ _ _ _
    · intro pc id hx hid
      cases hx
      cases hid

theorem served_step {a : Action} (h : Served db s) (hc : KeepsAServer s a) (hs : step db s a = some s') :
    Served db s' := by
  cases a with
  | transmit i o =>
    obtain ⟨t, s₁, x, hat, hm, rfl⟩ := step_transmit_inv hs
    exact served_transmit h hat hm
  | arrive | discovered | removed | enable | disable | disableCall | control | start =>
    exact served_outer h hc (step_outer hs fun i o => by simp)

/-- The removal of a last server leaves a flag that is wrong. -/
theorem keepsAServer_of_served {a : Action} (h : Served db s) (hs : step db s a = some s')
    (hQ : RequestsServed s') : KeepsAServer s a := by
  cases a with
  | removed id g =>
    intro hi hlast
    simp only [step] at hs
    split at hs
    · cases hs
      have hflag : s.bridge.registryEnabled id = true := by
        rw [h.known.agree hi id, hlast]
        exact Finset.singleton_ne_empty g
      have hgone := (hQ.1 hi id).mp hflag
      rw [RPCBridge.servers_eraseServer, if_pos rfl, hlast, Finset.erase_singleton] at hgone
      exact hgone rfl
    · cases hs
  | arrive | discovered | enable | disable | disableCall | control | start | transmit => trivial

end Preservation

/-- In a run of a bridge every request is written through a participant with
servers, and the flags of the registries say where servers are, exactly when no
step of the run removes the last server of a participant after the bridge has
been initialised. -/
theorem requests_served_iff_keepsAServer (db : Participants) (topic : RPCTopic) (as : List Action) :
    Visits (step db) RequestsServed (create db topic) as ↔
      Along (step db) KeepsAServer (create db topic) as :=
  visits_iff_along (fun _ h => ⟨h.known.agree, h.writes⟩) (fun _ _ _ hc h hs => served_step h hc hs)
    (fun _ _ _ h hs hQ => keepsAServer_of_served h hs hQ) (served_create db topic) as

/-- Both participants have a server, and that of `b` goes away; the bridge stays
enabled and a request received by `a` is written through `b`. -/
def writtenToNobody : List Action :=
  List.flatten
    [enabledFor ⟨"b"⟩,
      [.discovered ⟨"a"⟩ 8, .removed ⟨"b"⟩ 9, .arrive (.request, ⟨"a"⟩) (request 1), .start 2],
      List.replicate 5 (.transmit 0 {}), [.transmit 0 { sent := some 1 }]]

theorem request_written_without_server :
    ¬ ∀ (db : Participants) (topic : RPCTopic) (as : List Action),
      Visits (step db) (fun s => ∀ e ∈ s.log, e.toServer = true) (create db topic) as := by
  intro h
  have hrun : ∃ s, run (step twoParticipants) (create twoParticipants addTwoIntsService) writtenToNobody = some s ∧
      ¬ ∀ e ∈ s.log, e.toServer = true := ⟨_, rfl, by decide⟩
  obtain ⟨s, hrun, hbad⟩ := hrun
  exact hbad (visits_last (h twoParticipants addTwoIntsService writtenToNobody) hrun)

end DDSRouter.RPC
