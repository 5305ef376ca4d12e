import DDSRouter.RouterServices

/-!
# Servers of the bridges and endpoints of the database

A server is a request reader and a reply writer with two guids and one prefix,
and several servers may share a prefix. The database knows them by guid, the
bridges by prefix. A discovered endpoint reaches the bridges only when it is a
request reader, a removed one also when it is a reply writer, so the two agree
only as long as prefixes and endpoints come and go together.
-/
namespace DDSRouter

open WeakOrder

/-- What a server is to the bridges. -/
structure ServerKey where
  service : String
  participant : ParticipantId
  server : GuidPrefix
  deriving DecidableEq, Repr

namespace Endpoint

def key (e : Endpoint) : ServerKey :=
  ⟨(RPCTopic.ofTopic e.topic).serviceName, e.discovererParticipantId, e.guid.guidPrefix⟩

/-- The server that a reader on a request topic stands for. -/
def requestKey (e : Endpoint) : Option ServerKey :=
  if e.isReader && RPCTopic.isRequestTopic e.topic then some e.key else none

/-- The server that an endpoint of a server, reader or writer, belongs to. -/
def serverKey (e : Endpoint) : Option ServerKey := if e.isServerEndpoint then some e.key else none

end Endpoint

namespace DiscoveryDatabase

/-- Some entry is a reader on the request topic of the service, with this prefix
and discovered by this participant. -/
def holds (db : DiscoveryDatabase) (k : ServerKey) : Bool :=
  db.entities.entries.any fun x => x.2.requestKey = some k

/-- An entry with another guid is. -/
def holdsElse (db : DiscoveryDatabase) (g : Guid) (k : ServerKey) : Bool :=
  db.entities.entries.any fun x => x.1 ≠ g && x.2.requestKey = some k

theorem holds_iff {db : DiscoveryDatabase} {k : ServerKey} :
    db.holds k = true ↔ ∃ g e, db.entities.find g = some e ∧ e.requestKey = some k := by
  simp only [holds, List.any_eq_true, decide_eq_true_eq]
  constructor
  · rintro ⟨⟨g, e⟩, hmem, hk⟩
    exact ⟨g, e, OrdMap.find_of_mem hmem, hk⟩
  · rintro ⟨g, e, hf, hk⟩
    obtain ⟨g', -, hmem⟩ := OrdMap.mem_of_find hf
    exact ⟨(g', e), hmem, hk⟩

theorem holdsElse_iff {db : DiscoveryDatabase} {g : Guid} {k : ServerKey} :
    db.holdsElse g k = true ↔ ∃ g' e, g' ≠ g ∧ db.entities.find g' = some e ∧ e.requestKey = some k := by
  simp only [holdsElse, List.any_eq_true, Bool.and_eq_true, decide_eq_true_eq]
  constructor
  · rintro ⟨⟨g', e⟩, hmem, hne, hk⟩
    exact ⟨g', e, hne, OrdMap.find_of_mem hmem, hk⟩
  · rintro ⟨g', e, hne, hf, hk⟩
    obtain ⟨g₂, hs, hmem⟩ := OrdMap.mem_of_find hf
    rw [same_iff_eq] at hs
    exact ⟨(g', e), hs ▸ hmem, hne, hk⟩

/-- An entry counts for its own server; for the others the rest of the database
decides. -/
theorem holds_of_find {db : DiscoveryDatabase} {g : Guid} {old : Endpoint} (hf : db.entities.find g = some old)
    (k : ServerKey) : db.holds k = true ↔ old.requestKey = some k ∨ db.holdsElse g k = true := by
  rw [holds_iff, holdsElse_iff]
  constructor
  · rintro ⟨g', e, he, hk⟩
    by_cases hg : g' = g
    · subst hg
      rw [hf, Option.some.injEq] at he
      exact .inl (he ▸ hk)
    · exact .inr ⟨g', e, hg, he, hk⟩
  · rintro (hk | ⟨g', e, -, he, hk⟩)
    · exact ⟨g, old, hf, hk⟩
    · exact ⟨g', e, he, hk⟩

theorem holds_of_find_none {db : DiscoveryDatabase} {g : Guid} (hf : db.entities.find g = none)
    (k : ServerKey) : db.holds k = true ↔ db.holdsElse g k = true := by
  rw [holds_iff, holdsElse_iff]
  constructor
  · rintro ⟨g', e, he, hk⟩
    refine ⟨g', e, ?_, he, hk⟩
    rintro rfl
    simp [hf] at he
  · rintro ⟨g', e, -, he, hk⟩
    exact ⟨g', e, he, hk⟩

theorem holds_set (db : DiscoveryDatabase) (g : Guid) (e : Endpoint) (k : ServerKey) :
    holds ⟨db.entities.set g e⟩ k = true ↔ e.requestKey = some k ∨ db.holdsElse g k = true := by
  have hf : (⟨db.entities.set g e⟩ : DiscoveryDatabase).entities.find g = some e :=
    OrdMap.find_set_self db.entities g e
  rw [holds_of_find hf, holdsElse_iff, holdsElse_iff]
  refine or_congr_right ?_
  constructor
  · rintro ⟨g', e', hne, he, hk⟩
    simp only [OrdMap.find_set, same_iff_eq, hne, if_false] at he
    exact ⟨g', e', hne, he, hk⟩
  · rintro ⟨g', e', hne, he, hk⟩
    refine ⟨g', e', hne, ?_, hk⟩
    simpa only [OrdMap.find_set, same_iff_eq, hne, if_false] using he

theorem holds_erase (db : DiscoveryDatabase) (g : Guid) (k : ServerKey) :
    holds ⟨db.entities.erase g⟩ k = true ↔ db.holdsElse g k = true := by
  rw [holds_iff, holdsElse_iff]
  constructor
  · rintro ⟨g', e, he, hk⟩
    simp only [OrdMap.find_erase, same_iff_eq] at he
    split at he
    · cases he
    · rename_i hne
      exact ⟨g', e, hne, he, hk⟩
  · rintro ⟨g', e, hne, he, hk⟩
    refine ⟨g', e, ?_, hk⟩
    simpa only [OrdMap.find_erase, same_iff_eq, hne, if_false] using he

end DiscoveryDatabase

namespace Router

open Runs

/-- `current_servers_[id]` of the bridge of the service, empty where there is no
bridge. -/
def State.servers (s : State) (t : RPCTopic) (id : ParticipantId) : Finset GuidPrefix :=
  ((s.rpcBridges.find t).map fun b => b.servers id).getD ∅

def SameServers (s s' : State) : Prop := ∀ t id, s'.servers t id = s.servers t id

theorem servers_updateBridge (s : State) (t t' : RPCTopic) (f : RPCBridge → RPCBridge) (id : ParticipantId) :
    (updateBridge s t f).servers t' id =
      if same t' t then ((s.rpcBridges.find t).map fun b => (f b).servers id).getD ∅ else s.servers t' id := by
  simp only [State.servers, updateBridge_find]
  split
  · rw [Option.map_map]
    rfl
  · rfl

/-- No bridge comes or goes, and what `f` shows of each stays. -/
def SameBridges {β : Type} (f : RPCBridge → β) (s s' : State) : Prop :=
  ∀ t, (s'.rpcBridges.find t).map f = (s.rpcBridges.find t).map f

section SameBridges

variable {β : Type} {f : RPCBridge → β} {env : Env}

theorem SameBridges.trans {s₁ s₂ s₃ : State} (h : SameBridges f s₁ s₂) (h' : SameBridges f s₂ s₃) :
    SameBridges f s₁ s₃ := fun t => (h' t).trans (h t)

theorem sameBridges_of_rest {s s' : State} (h : s'.rest = s.rest) : SameBridges f s s' := by
  intro t
  simp only [State.rest, Prod.mk.injEq] at h
  rw [h.2.2.2]

theorem updateBridge_sameBridges {g : RPCBridge → RPCBridge} (hg : ∀ b, f (g b) = f b) (s : State) (t : RPCTopic) :
    SameBridges f s (updateBridge s t g) := by
  intro t'
  rw [updateBridge_find]
  split
  · rename_i hs
    rw [OrdMap.find_congr hs, Option.map_map]
    cases s.rpcBridges.find t with
    | none => rfl
    | some b => exact congrArg some (hg b)
  · rfl

theorem foldl_sameBridges {g : State → RPCTopic → State} (hg : ∀ s t, SameBridges f s (g s t))
    (ts : List RPCTopic) (s : State) : SameBridges f s (ts.foldl g s) := by
  induction ts generalizing s with
  | nil => exact fun _ => rfl
  | cons t ts ih => exact (hg s t).trans (ih (g s t))

theorem startService_sameBridges (hen : ∀ b, f (enableBridge env b) = f b) (s : State) (t : RPCTopic) :
    SameBridges f s (startService env s t) := by
  unfold startService
  split
  · exact updateBridge_sameBridges hen s t
  · exact fun _ => rfl

theorem reloadService_sameBridges (hen : ∀ b, f (enableBridge env b) = f b) (hdis : ∀ b, f b.disable = f b)
    (s : State) (t : RPCTopic) : SameBridges f s (reloadService env s t) := by
  unfold reloadService
  split
  · exact updateBridge_sameBridges hen { s with currentServices := s.currentServices.set t true } t
  · exact updateBridge_sameBridges hdis { s with currentServices := s.currentServices.set t false } t

theorem enableIfActive_sameBridges (hen : ∀ b, f (enableBridge env b) = f b) (s : State) (t : RPCTopic) :
    SameBridges f s (enableIfActive env s t) := by
  unfold enableIfActive
  split
  · exact updateBridge_sameBridges hen s t
  · exact fun _ => rfl

/-- Starts, stops and reloads. -/
def Action.isControl : Action → Bool
  | .start | .stop | .reload _ => true
  | .discovered _ | .removed _ => false

/-- What neither `enable` nor `disable` of a bridge changes is the same after these. -/
theorem control_sameBridges (hen : ∀ b, f (enableBridge env b) = f b) (hdis : ∀ b, f b.disable = f b)
    {s s' : State} {a : Action} (ha : a.isControl = true) (hs : step env s a = some s') : SameBridges f s s' := by
  cases step_move hs with
  | keep => exact fun _ => rfl
  | start =>
    have htopics : SameBridges f s (activateAllTopics env { s with enabled := true }) := by
      intro t
      exact sameBridges_of_rest (activateAllTopics_rest env { s with enabled := true }) t
    exact htopics.trans (foldl_sameBridges (startService_sameBridges hen) _ _)
  | stop =>
    intro t
    exact sameBridges_of_rest (stopped_rest s) t
  | reload c =>
    refine SameBridges.trans ?_ (foldl_sameBridges (reloadService_sameBridges hen hdis) _ _)
    intro t
    exact sameBridges_of_rest (reloadedTopics_rest env s c) t
  | topic | server | serverRemoved => cases ha

theorem SameBridges.sameServers {s s' : State} (h : SameBridges RPCBridge.servers s s') : SameServers s s' := by
  intro t id
  have hshown : ∀ o : Option RPCBridge, (o.map fun b => b.servers id) = (o.map RPCBridge.servers).map fun g => g id := by
    intro o
    rw [Option.map_map]
    rfl
  rw [State.servers, State.servers, hshown, hshown, h t]

theorem servers_enableBridge (b : RPCBridge) : (enableBridge env b).servers = b.servers :=
  funext fun id => RPCBridge.servers_enable _ _ b id

end SameBridges

variable {env : Env}

/-- A fresh bridge has no servers. -/
theorem ensureService_sameServers (env : Env) (s : State) (t : RPCTopic) : SameServers s (ensureService env s t) := by
  unfold ensureService
  cases hc : s.rpcBridges.contains t with
  | true => exact fun _ _ => rfl
  | false =>
    intro t' id
    simp only [Bool.false_eq_true, if_false, State.servers, createNewService, OrdMap.find_set]
    split
    · rename_i hs
      have hnone : s.rpcBridges.find t' = none := by
        rw [OrdMap.find_congr hs]
        simpa [OrdMap.contains] using hc
      rw [hnone]
      rfl
    · rfl

theorem ensureService_find (env : Env) (s : State) (t : RPCTopic) :
    ∃ b, (ensureService env s t).rpcBridges.find t = some b := by
  unfold ensureService
  split
  · rename_i hc
    exact Option.isSome_iff_exists.mp hc
  · exact ⟨_, OrdMap.find_set_self _ t _⟩

theorem servers_discoveredService (s : State) (t t' : RPCTopic) (id id' : ParticipantId) (g g' : GuidPrefix) :
    g' ∈ (discoveredService env s t id g).servers t' id' ↔
      (same t' t = true ∧ id' = id ∧ g' = g) ∨ g' ∈ s.servers t' id' := by
  have hlast : SameServers (updateBridge (ensureService env s t) t fun b => b.discoveredService id g)
      (discoveredService env s t id g) := (enableIfActive_sameBridges servers_enableBridge _ t).sameServers
  obtain ⟨b, hb⟩ := ensureService_find env s t
  rw [hlast t' id', servers_updateBridge, ← ensureService_sameServers env s t t' id', hb]
  cases hs : same t' t with
  | true =>
    simp only [if_true, Option.map_some, Option.getD_some, RPCBridge.servers_discoveredService, true_and,
      State.servers, OrdMap.find_congr hs, hb]
    by_cases hid : id' = id
    · subst hid
      simp
    · simp [hid]
  | false => simp

theorem servers_removedService (s : State) (t t' : RPCTopic) (id id' : ParticipantId) (g g' : GuidPrefix) :
    g' ∈ (removedService s t id g).servers t' id' ↔
      ¬ (same t' t = true ∧ id' = id ∧ g' = g) ∧ g' ∈ s.servers t' id' := by
  unfold removedService
  rw [servers_updateBridge]
  cases hs : same t' t with
  | true =>
    simp only [if_true, RPCBridge.servers_removedService, true_and, State.servers, OrdMap.find_congr hs]
    cases s.rpcBridges.find t with
    | none => simp
    | some b =>
      by_cases hid : id' = id
      · subst hid
        simp [Finset.mem_erase]
      · simp [hid]
  | false => simp

theorem isServiceTopic_of_isServerEndpoint {e : Endpoint} (h : e.isServerEndpoint = true) :
    RPCTopic.isServiceTopic e.topic = true := by
  simp only [Endpoint.isServerEndpoint, Bool.or_eq_true, Bool.and_eq_true] at h
  simp only [RPCTopic.isServiceTopic, Bool.or_eq_true]
  exact h.imp And.right And.right

theorem key_eq_iff {e : Endpoint} {t : RPCTopic} {id : ParticipantId} {g : GuidPrefix} :
    e.key = ⟨t.serviceName, id, g⟩ ↔
      same t (RPCTopic.ofTopic e.topic) = true ∧ id = e.discovererParticipantId ∧ g = e.guid.guidPrefix := by
  rw [RPCTopic.same_iff_serviceName, Endpoint.key, ServerKey.mk.injEq]
  exact and_congr eq_comm (and_congr eq_comm eq_comm)

/-- A discovered endpoint adds the server that its request reader stands for. -/
theorem servers_discoveredEndpoint (s : State) (e : Endpoint) (t : RPCTopic) (id : ParticipantId)
    (g : GuidPrefix) :
    g ∈ (discoveredEndpoint env s e).servers t id ↔
      e.requestKey = some ⟨t.serviceName, id, g⟩ ∨ g ∈ s.servers t id := by
  unfold discoveredEndpoint
  cases hr : e.isReader with
  | false => simp [Endpoint.requestKey, hr]
  | true =>
    cases hq : RPCTopic.isRequestTopic e.topic with
    | true =>
      have hserver : e.isServerEndpoint = true := by simp [Endpoint.isServerEndpoint, hr, hq]
      simp only [isServiceTopic_of_isServerEndpoint hserver, hserver, Endpoint.requestKey, hr, hq,
        Bool.not_true, Bool.false_eq_true, if_false, if_true, Bool.and_self, Option.some.injEq, key_eq_iff,
        servers_discoveredService]
    | false =>
      have hserver : e.isServerEndpoint = false := by
        have hw : e.isWriter = false := by
          simp only [Endpoint.isReader, Endpoint.isWriter, decide_eq_true_eq, decide_eq_false_iff_not] at hr ⊢
          simp [hr]
        simp [Endpoint.isServerEndpoint, hq, hw]
      have hsame : SameServers s (discoveredTopic env s e.topic) :=
        (sameBridges_of_rest (discoveredTopic_rest s e.topic)).sameServers
      simp only [if_true, hserver, Bool.false_eq_true, if_false, Endpoint.requestKey, hr, hq, Bool.and_false,
        reduceCtorEq, false_or]
      split
      · rw [hsame t id]
      · rfl

/-- A removed endpoint takes away the server that it belongs to. -/
theorem servers_removedEndpoint (s : State) (e : Endpoint) (t : RPCTopic) (id : ParticipantId)
    (g : GuidPrefix) :
    g ∈ (removedEndpoint s e).servers t id ↔
      e.serverKey ≠ some ⟨t.serviceName, id, g⟩ ∧ g ∈ s.servers t id := by
  unfold removedEndpoint
  cases hserver : e.isServerEndpoint with
  | true =>
    simp only [isServiceTopic_of_isServerEndpoint hserver, if_true, Endpoint.serverKey, hserver, ne_eq,
      Option.some.injEq, key_eq_iff, servers_removedService]
  | false => simp [Endpoint.serverKey, hserver]

/-! ### The database and the router together -/

inductive DiscoveryAction where
  | add (e : Endpoint)
  | erase (e : Endpoint)
  | start
  | stop
  | reload (c : ReloadConfiguration)
  deriving DecidableEq, Repr

/-- The callbacks that the router has registered; it has none for updates. -/
def deliver (env : Env) (s : State) : Option DiscoveryEvent → State
  | some (.discovered e) => discoveredEndpoint env s e
  | some (.erased e) => removedEndpoint s e
  | some (.updated _) => s
  | none => s

def processOperation (env : Env) (p : DiscoveryDatabase × State) (op : DatabaseOperation) :
    DiscoveryDatabase × State :=
  ((p.1.process op).1, deliver env p.2 (p.1.process op).2)

def discoveryStep (env : Env) (p : DiscoveryDatabase × State) : DiscoveryAction →
    Option (DiscoveryDatabase × State)
  | .add e => some (processOperation env p (.add e))
  | .erase e => some (processOperation env p (.erase e))
  | .start => some (p.1, (start env p.2).2)
  | .stop => some (p.1, (stop p.2).2)
  | .reload c => (reloadConfiguration env p.2 c).map fun r => (p.1, r.2)

/-- The bridges know exactly the servers whose request readers are in the
database. -/
def Agree (p : DiscoveryDatabase × State) : Prop :=
  ∀ t id g, g ∈ p.2.servers t id ↔ p.1.holds ⟨t.serviceName, id, g⟩ = true

/-- An addition in place of an inactive entry changes the server that the entry
stands for only where another entry stands for it; after an erasure no entry is
left for the server that is reported as removed, and the server of the entry
that is erased, where no other entry stands for it, is the one reported. -/
def ComeAndGoTogether (p : DiscoveryDatabase × State) : DiscoveryAction → Prop
  | .add e => ∀ old, p.1.entities.find e.guid = some old → old.active = false →
      ∀ k, ¬ (old.requestKey = some k ↔ e.requestKey = some k) → p.1.holdsElse e.guid k = true
  | .erase e => ∀ old, p.1.entities.find e.guid = some old →
      (∀ k, e.serverKey = some k → p.1.holdsElse e.guid k = false) ∧
      ∀ k, old.requestKey = some k → p.1.holdsElse e.guid k = true ∨ e.serverKey = some k
  | _ => True

theorem agree_of_sameServers {db : DiscoveryDatabase} {s s' : State} (h : SameServers s s')
    (ha : Agree (db, s)) : Agree (db, s') := by
  intro t id g
  rw [h t id]
  exact ha t id g

/-- The service with a given name, to ask for the servers under a key. -/
def serviceNamed (name : String) : RPCTopic :=
  { serviceName := name, requestTopic := ⟨"", "", false, {}⟩, replyTopic := ⟨"", "", false, {}⟩ }

theorem agree_iff_of_servers {p : DiscoveryDatabase × State} {Q : ServerKey → Prop}
    (hs : ∀ t id g, g ∈ p.2.servers t id ↔ Q ⟨t.serviceName, id, g⟩) :
    Agree p ↔ ∀ k, Q k ↔ p.1.holds k = true := by
  constructor
  · intro ha k
    exact (hs (serviceNamed k.service) k.participant k.server).symm.trans (ha _ _ _)
  · intro hq t id g
    exact (hs t id g).trans (hq _)

@[simp] theorem requestKey_assign (old new : Endpoint) : (old.assign new).requestKey = new.requestKey := rfl

/-- An addition keeps the agreement, except in place of an inactive entry. -/
theorem agree_add {p : DiscoveryDatabase × State} (h : Agree p) (e : Endpoint) :
    Agree (processOperation env p (.add e)) ↔ ComeAndGoTogether p (.add e) := by
  obtain ⟨db, s⟩ := p
  simp only [ComeAndGoTogether]
  cases hf : db.entities.find e.guid with
  | none =>
    have hp : processOperation env (db, s) (.add e) =
        (⟨db.entities.set e.guid e⟩, discoveredEndpoint env s e) := by
      simp [processOperation, DiscoveryDatabase.process, DiscoveryDatabase.addEndpoint, hf, deliver]
    rw [hp]
    refine iff_of_true ?_ (by simp)
    rw [agree_iff_of_servers (Q := fun k => e.requestKey = some k ∨ db.holds k = true)
      fun t id g => by rw [servers_discoveredEndpoint, h t id g]]
    intro k
    rw [DiscoveryDatabase.holds_set, DiscoveryDatabase.holds_of_find_none hf]
  | some old =>
    cases hact : old.active with
    | true =>
      have hp : processOperation env (db, s) (.add e) = (db, s) := by
        simp [processOperation, DiscoveryDatabase.process, DiscoveryDatabase.addEndpoint, hf, hact, deliver]
      rw [hp]
      exact iff_of_true h (by simp [hact])
    | false =>
      have hp : processOperation env (db, s) (.add e) = (⟨db.entities.set e.guid (old.assign e)⟩, s) := by
        simp [processOperation, DiscoveryDatabase.process, DiscoveryDatabase.addEndpoint, hf, hact, deliver]
      have hservers := agree_iff_of_servers (p := (⟨db.entities.set e.guid (old.assign e)⟩, s))
        (Q := fun k => db.holds k = true) h
      rw [hp, hservers]
      simp only [DiscoveryDatabase.holds_set, requestKey_assign, DiscoveryDatabase.holds_of_find hf,
        Option.some.injEq, forall_eq', hact, forall_const]
      refine forall_congr' fun k => ?_
      tauto

/-- An erasure keeps the agreement exactly when the server that it reports is
the one that has gone. -/
theorem agree_erase {p : DiscoveryDatabase × State} (h : Agree p) (e : Endpoint) :
    Agree (processOperation env p (.erase e)) ↔ ComeAndGoTogether p (.erase e) := by
  obtain ⟨db, s⟩ := p
  simp only [ComeAndGoTogether]
  cases hf : db.entities.find e.guid with
  | none =>
    have hp : processOperation env (db, s) (.erase e) = (db, s) := by
      simp [processOperation, DiscoveryDatabase.process, DiscoveryDatabase.eraseEndpoint, OrdMap.contains, hf,
        deliver]
    rw [hp]
    exact iff_of_true h (by simp)
  | some old =>
    have hp : processOperation env (db, s) (.erase e) = (⟨db.entities.erase e.guid⟩, removedEndpoint s e) := by
      simp [processOperation, DiscoveryDatabase.process, DiscoveryDatabase.eraseEndpoint, OrdMap.contains, hf,
        deliver]
    rw [hp, agree_iff_of_servers (Q := fun k => e.serverKey ≠ some k ∧ db.holds k = true)
      fun t id g => by rw [servers_removedEndpoint, h t id g]]
    simp only [DiscoveryDatabase.holds_erase, DiscoveryDatabase.holds_of_find hf, Option.some.injEq,
      forall_eq', ← forall_and, ← Bool.not_eq_true]
    refine forall_congr' fun k => ?_
    tauto

theorem agree_step {p p' : DiscoveryDatabase × State} {a : DiscoveryAction} (h : Agree p)
    (hs : discoveryStep env p a = some p') : Agree p' ↔ ComeAndGoTogether p a := by
  have hcontrol : ∀ b s', Action.isControl b = true → step env p.2 b = some s' → Agree (p.1, s') := by
    intro b s' hb hstep
    exact agree_of_sameServers (control_sameBridges servers_enableBridge (fun _ => rfl) hb hstep).sameServers h
  cases a with
  | add e =>
    cases hs
    exact agree_add h e
  | erase e =>
    cases hs
    exact agree_erase h e
  | start =>
    cases hs
    exact iff_of_true (hcontrol .start _ rfl rfl) trivial
  | stop =>
    cases hs
    exact iff_of_true (hcontrol .stop _ rfl rfl) trivial
  | reload c =>
    simp only [discoveryStep, Option.map_eq_some_iff] at hs
    obtain ⟨r, hr, rfl⟩ := hs
    exact iff_of_true (hcontrol (.reload c) r.2 rfl (by simp [step, hr])) trivial

theorem agree_create (env : Env) (c : ReloadConfiguration) : Agree ({}, create env c) := by
  refine agree_of_sameServers (s := { allowedTopics := AllowedTopicList.create c.allowlist c.blocklist }) ?_ ?_
  · exact (sameBridges_of_rest (foldl_rest discoveredTopic_rest _ _)).sameServers
  · intro t id g
    have hnone : (OrdMap.empty : OrdMap RPCTopic RPCBridge).find t = none := OrdMap.find_empty t
    have hempty : DiscoveryDatabase.holds {} ⟨t.serviceName, id, g⟩ = false := rfl
    simp [State.servers, hnone, hempty]

/-- A run keeps database and bridges in agreement in every state exactly when
endpoints and prefixes come and go together in every step. -/
theorem agree_iff_comeAndGoTogether (env : Env) (c : ReloadConfiguration) (as : List DiscoveryAction) :
    Visits (discoveryStep env) Agree ({}, create env c) as ↔
      Along (discoveryStep env) ComeAndGoTogether ({}, create env c) as :=
  visits_iff_along (fun _ h => h) (fun _ _ _ hC h hs => (agree_step h hs).mpr hC)
    (fun _ _ _ h hs hQ => (agree_step h hs).mp hQ) (agree_create env c) as

/-! Two servers of one service share a prefix, and the first one goes. -/

def twoServersOnePrefix : List DiscoveryAction :=
  [.add (readerOf addTwoInts ⟨2, 1⟩), .add (readerOf addTwoInts ⟨2, 2⟩),
    .erase (readerOf addTwoInts ⟨2, 1⟩)]

theorem bridge_forgets_living_server :
    ¬ ∀ (env : Env) (c : ReloadConfiguration) (as : List DiscoveryAction),
      Visits (discoveryStep env) Agree ({}, create env c) as := by
  intro h
  have hrun : ∃ p, run (discoveryStep plainEnv) ({}, create plainEnv {}) twoServersOnePrefix = some p ∧
      (2 : GuidPrefix) ∉ p.2.servers (RPCTopic.ofTopic addTwoInts) ⟨"a"⟩ ∧
      p.1.holds ⟨(RPCTopic.ofTopic addTwoInts).serviceName, ⟨"a"⟩, 2⟩ = true := ⟨_, rfl, by decide⟩
  obtain ⟨p, hrun, hgone, halive⟩ := hrun
  exact hgone ((visits_last (h plainEnv {} twoServersOnePrefix) hrun _ _ _).mpr halive)

end Router

end DDSRouter
