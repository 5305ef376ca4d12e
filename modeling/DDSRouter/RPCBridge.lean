import DDSRouter.Types
import Mathlib.Data.Finset.Basic

/-!
# Service registries and bridges of one service

A `ServiceRegistry` remembers, for the requests sent through one participant,
where each came from. An `RPCBridge` keeps the servers of its service, one
registry for every RTPS participant, and the flags that its threads look at.
Its endpoints are created the first time that it is enabled.
-/
namespace DDSRouter

open WeakOrder

structure ServiceRegistry where
  enabled : Bool := false
  registry : OrdMap SequenceNumber (ParticipantId × SampleIdentity) := OrdMap.empty

namespace ServiceRegistry

def defaultMaxEntries : Nat := 5000

/-- An entry that is present stays; a full registry loses the entry with the
lowest number, which may be the new one. -/
def add (r : ServiceRegistry) (idx : SequenceNumber) (entry : ParticipantId × SampleIdentity) :
    ServiceRegistry :=
  if r.registry.contains idx then r
  else
    let m := r.registry.set idx entry
    { r with registry := if m.size = defaultMaxEntries then m.eraseFirst else m }

def get (r : ServiceRegistry) (idx : SequenceNumber) : ParticipantId × SampleIdentity :=
  (r.registry.find idx).getD (ParticipantId.invalid, SampleIdentity.unknown)

def erase (r : ServiceRegistry) (idx : SequenceNumber) : ServiceRegistry :=
  if r.registry.contains idx then { r with registry := r.registry.erase idx } else r

@[simp] theorem add_enabled (r : ServiceRegistry) (idx : SequenceNumber)
    (entry : ParticipantId × SampleIdentity) : (r.add idx entry).enabled = r.enabled := by
  unfold add
  split <;> rfl

@[simp] theorem erase_enabled (r : ServiceRegistry) (idx : SequenceNumber) :
    (r.erase idx).enabled = r.enabled := by
  unfold erase
  split <;> rfl

/-- What `get` returns with a valid participant is stored. -/
theorem find_of_get {r : ServiceRegistry} {idx : SequenceNumber} (hv : (r.get idx).1.isValid = true) :
    r.registry.find idx = some (r.get idx) := by
  unfold get at hv ⊢
  cases hf : r.registry.find idx with
  | none =>
    simp only [hf, Option.getD_none] at hv
    exact absurd hv (by decide)
  | some entry => rfl

/-- Whatever is found after an addition was there or is the new entry. -/
theorem find_add {r : ServiceRegistry} {idx k : SequenceNumber} {entry e : ParticipantId × SampleIdentity}
    (h : (r.add idx entry).registry.find k = some e) :
    r.registry.find k = some e ∨ k = idx ∧ e = entry := by
  have hset : ∀ e, (r.registry.set idx entry).find k = some e →
      r.registry.find k = some e ∨ k = idx ∧ e = entry := by
    intro e he
    rw [OrdMap.find_set] at he
    split at he
    · rename_i hk
      cases he
      exact .inr ⟨same_iff_eq.mp hk, rfl⟩
    · exact .inl he
  unfold add at h
  split at h
  · exact .inl h
  · simp only at h
    split at h
    · exact hset e (OrdMap.find_of_find_eraseFirst h)
    · exact hset e h

theorem find_erase {r : ServiceRegistry} {idx k : SequenceNumber} {e : ParticipantId × SampleIdentity}
    (h : (r.erase idx).registry.find k = some e) : r.registry.find k = some e := by
  unfold erase at h
  split at h
  · rw [OrdMap.find_erase] at h
    split at h
    · cases h
    · exact h
  · exact h

end ServiceRegistry

structure RPCBridge where
  topic : RPCTopic
  init : Bool := false
  enabled : Bool := false
  currentServers : OrdMap ParticipantId (Finset GuidPrefix) := OrdMap.empty
  serviceRegistries : OrdMap ParticipantId ServiceRegistry := OrdMap.empty

/-- How the creation of the endpoints of one participant ends. -/
inductive Creation where
  | ok | clientFails | serverFails
  deriving DecidableEq, Repr

namespace RPCBridge

/-- `current_servers_[id]`. -/
def servers (b : RPCBridge) (id : ParticipantId) : Finset GuidPrefix :=
  (b.currentServers.find id).getD ∅

def serversAvailable (b : RPCBridge) : Bool := b.currentServers.entries.any fun e => e.2 ≠ ∅

/-- The loop of `init_nts_`; the registry of a participant is created with its
proxy client. Whether the loop came to its end is the second part. -/
def initNts (created : ParticipantId → Creation) : List ParticipantId → RPCBridge → RPCBridge × Bool
  | [], b => ({ b with init := true }, true)
  | id :: rest, b =>
    match created id with
    | .clientFails => (b, false)
    | .serverFails => ({ b with serviceRegistries := b.serviceRegistries.set id {} }, false)
    | .ok =>
      initNts created rest
        { b with
          currentServers := b.currentServers.set id (b.servers id)
          serviceRegistries := b.serviceRegistries.set id { enabled := b.servers id ≠ ∅ } }

/-- `enable` up to the switching of the endpoints. -/
def enable (created : ParticipantId → Creation) (ids : List ParticipantId) (b : RPCBridge) : RPCBridge :=
  if !b.enabled && b.serversAvailable then
    if b.init then { b with enabled := true }
    else
      match initNts created ids b with
      | (b', true) => { b' with enabled := true }
      | (b', false) => b'
  else b

def disable (b : RPCBridge) : RPCBridge := { b with enabled := false }

/-- An operation on `service_registries_[id]`; every RTPS participant has its
registry once the bridge is initialised. -/
def mapRegistry (b : RPCBridge) (id : ParticipantId) (f : ServiceRegistry → ServiceRegistry) : RPCBridge :=
  match b.serviceRegistries.find id with
  | some r => { b with serviceRegistries := b.serviceRegistries.set id (f r) }
  | none => b

def enableRegistry (b : RPCBridge) (id : ParticipantId) : RPCBridge :=
  b.mapRegistry id fun r => { r with enabled := true }

/-- `service_registries_[id]->enabled()`. -/
def registryEnabled (b : RPCBridge) (id : ParticipantId) : Bool :=
  (b.serviceRegistries.find id).any ServiceRegistry.enabled

def discoveredService (b : RPCBridge) (id : ParticipantId) (g : GuidPrefix) : RPCBridge :=
  let b' := { b with currentServers := b.currentServers.set id (insert g (b.servers id)) }
  if b.init then b'.enableRegistry id else b'

/-- The erasure in `removed_service`. -/
def eraseServer (b : RPCBridge) (id : ParticipantId) (g : GuidPrefix) : RPCBridge :=
  { b with currentServers := b.currentServers.set id ((b.servers id).erase g) }

def removedService (b : RPCBridge) (id : ParticipantId) (g : GuidPrefix) : RPCBridge :=
  let b' := b.eraseServer id g
  if b'.servers id = ∅ ∧ !b'.serversAvailable then b'.disable else b'

theorem serversAvailable_iff {b : RPCBridge} : b.serversAvailable = true ↔ ∃ id, b.servers id ≠ ∅ := by
  simp only [serversAvailable, List.any_eq_true, decide_eq_true_eq]
  constructor
  · rintro ⟨⟨id, gs⟩, hmem, hgs⟩
    refine ⟨id, ?_⟩
    simpa [servers, OrdMap.find_of_mem hmem] using hgs
  · rintro ⟨id, hid⟩
    cases hf : b.currentServers.find id with
    | none => simp [servers, hf] at hid
    | some gs =>
      obtain ⟨id', -, hmem⟩ := OrdMap.mem_of_find hf
      exact ⟨(id', gs), hmem, by simpa [servers, hf] using hid⟩

theorem serversAvailable_congr {b b' : RPCBridge} (h : ∀ id, b'.servers id = b.servers id) :
    b'.serversAvailable = b.serversAvailable := by
  rw [Bool.eq_iff_iff, serversAvailable_iff, serversAvailable_iff]
  simp [h]

/-! The servers after each operation. -/

theorem servers_set (b : RPCBridge) (id q : ParticipantId) (gs : Finset GuidPrefix) :
    servers { b with currentServers := b.currentServers.set id gs } q = if q = id then gs else b.servers q := by
  simp only [servers, OrdMap.find_set, same_iff_eq]
  split <;> rfl

@[simp] theorem servers_mapRegistry (b : RPCBridge) (id q : ParticipantId)
    (f : ServiceRegistry → ServiceRegistry) : (b.mapRegistry id f).servers q = b.servers q := by
  unfold mapRegistry
  split <;> rfl

@[simp] theorem servers_discoveredService (b : RPCBridge) (id q : ParticipantId) (g : GuidPrefix) :
    (b.discoveredService id g).servers q = if q = id then insert g (b.servers id) else b.servers q := by
  unfold discoveredService
  simp only
  split
  · rw [enableRegistry, servers_mapRegistry, servers_set]
  · rw [servers_set]

@[simp] theorem servers_eraseServer (b : RPCBridge) (id q : ParticipantId) (g : GuidPrefix) :
    (b.eraseServer id g).servers q = if q = id then (b.servers id).erase g else b.servers q :=
  servers_set b id q _

@[simp] theorem servers_disable (b : RPCBridge) (q : ParticipantId) : b.disable.servers q = b.servers q := rfl

@[simp] theorem servers_removedService (b : RPCBridge) (id q : ParticipantId) (g : GuidPrefix) :
    (b.removedService id g).servers q = if q = id then (b.servers id).erase g else b.servers q := by
  unfold removedService
  simp only
  split
  · rw [servers_disable, servers_eraseServer]
  · rw [servers_eraseServer]

/-- Storing what `current_servers_[id]` has answered changes no answer. -/
theorem servers_set_self (b : RPCBridge) (id q : ParticipantId) (m : OrdMap ParticipantId ServiceRegistry) :
    servers { b with
      currentServers := b.currentServers.set id (b.servers id), serviceRegistries := m } q = b.servers q := by
  simp only [servers, OrdMap.find_set, same_iff_eq]
  split
  · rename_i hq
    rw [hq]
    rfl
  · rfl

theorem servers_initNts (created : ParticipantId → Creation) (ids : List ParticipantId) (b : RPCBridge)
    (q : ParticipantId) : (initNts created ids b).1.servers q = b.servers q := by
  induction ids generalizing b with
  | nil => rfl
  | cons id rest ih =>
    unfold initNts
    split
    · rfl
    · rfl
    · rw [ih, servers_set_self]

/-- What `enable` does: nothing, or it initialises the bridge where that is still
to be done, and then enables it if the initialisation came to its end. -/
theorem enable_cases (created : ParticipantId → Creation) (ids : List ParticipantId) (b : RPCBridge) :
    b.enable created ids = b ∨
    (b.init = true ∧ b.enable created ids = { b with enabled := true }) ∨
    (b.init = false ∧ (initNts created ids b).2 = true ∧
      b.enable created ids = { (initNts created ids b).1 with enabled := true }) ∨
    (b.init = false ∧ (initNts created ids b).2 = false ∧
      b.enable created ids = (initNts created ids b).1) := by
  unfold enable
  split
  · split
    · rename_i hi
      exact .inr (.inl ⟨hi, rfl⟩)
    · rename_i hi
      have hi : b.init = false := by simpa using hi
      split
      · rename_i b' hb
        exact .inr (.inr (.inl ⟨hi, by rw [hb], by rw [hb]⟩))
      · rename_i b' hb
        exact .inr (.inr (.inr ⟨hi, by rw [hb], by rw [hb]⟩))
  · exact .inl rfl

@[simp] theorem servers_enable (created : ParticipantId → Creation) (ids : List ParticipantId) (b : RPCBridge)
    (q : ParticipantId) : (b.enable created ids).servers q = b.servers q := by
  obtain h | ⟨-, h⟩ | ⟨-, -, h⟩ | ⟨-, -, h⟩ := enable_cases created ids b
  · rw [h]
  · rw [h]
    rfl
  · rw [h]
    exact servers_initNts created ids b q
  · rw [h]
    exact servers_initNts created ids b q

/-! No operation changes the topic of a bridge. -/

theorem topic_initNts (created : ParticipantId → Creation) (ids : List ParticipantId) (b : RPCBridge) :
    (initNts created ids b).1.topic = b.topic := by
  induction ids generalizing b with
  | nil => rfl
  | cons id rest ih =>
    unfold initNts
    split
    · rfl
    · rfl
    · rw [ih]

theorem topic_enable (created : ParticipantId → Creation) (ids : List ParticipantId) (b : RPCBridge) :
    (b.enable created ids).topic = b.topic := by
  obtain h | ⟨-, h⟩ | ⟨-, -, h⟩ | ⟨-, -, h⟩ := enable_cases created ids b
  · rw [h]
  · rw [h]
  · rw [h]
    exact topic_initNts created ids b
  · rw [h]
    exact topic_initNts created ids b

theorem topic_mapRegistry (b : RPCBridge) (id : ParticipantId) (f : ServiceRegistry → ServiceRegistry) :
    (b.mapRegistry id f).topic = b.topic := by
  unfold mapRegistry
  split <;> rfl

theorem topic_discoveredService (b : RPCBridge) (id : ParticipantId) (g : GuidPrefix) :
    (b.discoveredService id g).topic = b.topic := by
  unfold discoveredService
  simp only
  split
  · exact topic_mapRegistry _ id _
  · rfl

theorem topic_removedService (b : RPCBridge) (id : ParticipantId) (g : GuidPrefix) :
    (b.removedService id g).topic = b.topic := by
  unfold removedService
  simp only
  split <;> rfl

/-! When the bridge is enabled after each operation. -/

theorem initNts_ok (ids : List ParticipantId) (b : RPCBridge) :
    (initNts (fun _ => .ok) ids b).2 = true := by
  induction ids generalizing b with
  | nil => rfl
  | cons id rest ih => exact ih _

/-- Where no creation fails, `enable` looks at the servers only. -/
theorem enable_enabled (ids : List ParticipantId) (b : RPCBridge) :
    (b.enable (fun _ => .ok) ids).enabled = (b.enabled || b.serversAvailable) := by
  have hok := initNts_ok ids b
  unfold enable
  cases he : b.enabled with
  | true => simp [he]
  | false =>
    cases hs : b.serversAvailable with
    | false => simp [he]
    | true =>
      simp only [Bool.not_false, Bool.true_and, if_true, Bool.or_true]
      split
      · rfl
      · split
        · rfl
        · rename_i b' hb
          simp [hb] at hok

@[simp] theorem mapRegistry_enabled (b : RPCBridge) (id : ParticipantId)
    (f : ServiceRegistry → ServiceRegistry) : (b.mapRegistry id f).enabled = b.enabled := by
  unfold mapRegistry
  split <;> rfl

@[simp] theorem discoveredService_enabled (b : RPCBridge) (id : ParticipantId) (g : GuidPrefix) :
    (b.discoveredService id g).enabled = b.enabled := by
  unfold discoveredService
  simp only
  split
  · rw [enableRegistry, mapRegistry_enabled]
  · rfl

/-- The bridge is disabled with its last server. -/
theorem removedService_enabled (b : RPCBridge) (id : ParticipantId) (g : GuidPrefix) :
    (b.removedService id g).enabled = (b.enabled && (b.removedService id g).serversAvailable) := by
  have hsame : (b.removedService id g).serversAvailable = (b.eraseServer id g).serversAvailable :=
    serversAvailable_congr fun q => by rw [servers_removedService, servers_eraseServer]
  rw [hsame]
  unfold removedService
  simp only
  cases ha : (b.eraseServer id g).serversAvailable with
  | true => simp [eraseServer]
  | false =>
    have hnone : (b.eraseServer id g).servers id = ∅ := by
      by_contra hne
      have := serversAvailable_iff.mpr ⟨id, hne⟩
      simp [ha] at this
    simp [hnone, disable]

/-! What the registries remember after each operation. -/

/-- The entry of a participant's registry under a sequence number. -/
def entry (b : RPCBridge) (id : ParticipantId) (k : SequenceNumber) : Option (ParticipantId × SampleIdentity) :=
  (b.serviceRegistries.find id).bind fun r => r.registry.find k

theorem entry_mapRegistry (b : RPCBridge) (id q : ParticipantId) (f : ServiceRegistry → ServiceRegistry)
    (k : SequenceNumber) :
    (b.mapRegistry id f).entry q k =
      if q = id then (b.serviceRegistries.find id).bind fun r => (f r).registry.find k else b.entry q k := by
  unfold mapRegistry entry
  cases hf : b.serviceRegistries.find id with
  | some r =>
    simp only [OrdMap.find_set, same_iff_eq]
    split <;> rfl
  | none =>
    simp only
    split
    · rename_i hq
      rw [hq, hf]
      rfl
    · rfl

theorem entry_of_add {b : RPCBridge} {id q : ParticipantId} {idx k : SequenceNumber}
    {new e : ParticipantId × SampleIdentity}
    (h : (b.mapRegistry id fun r => r.add idx new).entry q k = some e) :
    b.entry q k = some e ∨ q = id ∧ k = idx ∧ e = new := by
  rw [entry_mapRegistry] at h
  split at h
  · rename_i hq
    obtain ⟨r, hr, hk⟩ := Option.bind_eq_some_iff.mp h
    rcases ServiceRegistry.find_add hk with hold | ⟨hidx, hnew⟩
    · exact .inl (by simpa [entry, hq, hr] using hold)
    · exact .inr ⟨hq, hidx, hnew⟩
  · exact .inl h

theorem entry_of_erase {b : RPCBridge} {id q : ParticipantId} {idx k : SequenceNumber}
    {e : ParticipantId × SampleIdentity}
    (h : (b.mapRegistry id fun r => r.erase idx).entry q k = some e) : b.entry q k = some e := by
  rw [entry_mapRegistry] at h
  split at h
  · rename_i hq
    obtain ⟨r, hr, hk⟩ := Option.bind_eq_some_iff.mp h
    simpa [entry, hq, hr] using ServiceRegistry.find_erase hk
  · exact h

theorem entry_discoveredService (b : RPCBridge) (id q : ParticipantId) (g : GuidPrefix) (k : SequenceNumber) :
    (b.discoveredService id g).entry q k = b.entry q k := by
  unfold discoveredService
  simp only
  split
  · rw [enableRegistry, entry_mapRegistry]
    split
    · rename_i hq
      rw [hq]
      rfl
    · rfl
  · rfl

theorem entry_of_set {b : RPCBridge} {id q : ParticipantId} {k : SequenceNumber} {on : Bool}
    {servers : OrdMap ParticipantId (Finset GuidPrefix)} {e : ParticipantId × SampleIdentity}
    (h : entry { b with
      currentServers := servers
      serviceRegistries := b.serviceRegistries.set id { enabled := on } } q k = some e) :
    b.entry q k = some e := by
  simp only [entry, OrdMap.find_set, same_iff_eq] at h
  split at h
  · simp at h
  · exact h

theorem entry_of_initNts {created : ParticipantId → Creation} {ids : List ParticipantId} {b : RPCBridge}
    {q : ParticipantId} {k : SequenceNumber} {e : ParticipantId × SampleIdentity}
    (h : (initNts created ids b).1.entry q k = some e) : b.entry q k = some e := by
  induction ids generalizing b with
  | nil => exact h
  | cons id rest ih =>
    unfold initNts at h
    split at h
    · exact h
    · exact entry_of_set h
    · exact entry_of_set (ih h)

/-- New registries are empty. -/
theorem entry_of_enable {created : ParticipantId → Creation} {ids : List ParticipantId} {b : RPCBridge}
    {q : ParticipantId} {k : SequenceNumber} {e : ParticipantId × SampleIdentity}
    (h : (b.enable created ids).entry q k = some e) : b.entry q k = some e := by
  obtain he | ⟨-, he⟩ | ⟨-, -, he⟩ | ⟨-, -, he⟩ := enable_cases created ids b
  · rwa [he] at h
  · rw [he] at h
    exact h
  · rw [he] at h
    exact entry_of_initNts h
  · rw [he] at h
    exact entry_of_initNts h

/-! Which registries there are, and which of them are enabled. -/

theorem find_mapRegistry (b : RPCBridge) (id q : ParticipantId) (f : ServiceRegistry → ServiceRegistry) :
    (b.mapRegistry id f).serviceRegistries.find q =
      if q = id then (b.serviceRegistries.find id).map f else b.serviceRegistries.find q := by
  unfold mapRegistry
  cases hf : b.serviceRegistries.find id with
  | some r =>
    simp only [OrdMap.find_set, same_iff_eq, Option.map_some]
  | none =>
    simp only [Option.map_none]
    split
    · rename_i hq
      rw [hq, hf]
    · rfl

@[simp] theorem contains_mapRegistry (b : RPCBridge) (id q : ParticipantId)
    (f : ServiceRegistry → ServiceRegistry) :
    (b.mapRegistry id f).serviceRegistries.contains q = b.serviceRegistries.contains q := by
  simp only [OrdMap.contains, find_mapRegistry]
  split
  · rename_i hq
    rw [hq, Option.isSome_map]
  · rfl

@[simp] theorem mapRegistry_init (b : RPCBridge) (id : ParticipantId)
    (f : ServiceRegistry → ServiceRegistry) : (b.mapRegistry id f).init = b.init := by
  unfold mapRegistry
  split <;> rfl

/-- Additions and erasures do not touch the flag. -/
theorem registryEnabled_mapRegistry {f : ServiceRegistry → ServiceRegistry}
    (hf : ∀ r, (f r).enabled = r.enabled) (b : RPCBridge) (id q : ParticipantId) :
    (b.mapRegistry id f).registryEnabled q = b.registryEnabled q := by
  simp only [registryEnabled, find_mapRegistry]
  split
  · rename_i hq
    rw [hq]
    cases b.serviceRegistries.find id with
    | none => rfl
    | some r => exact hf r
  · rfl

theorem registryEnabled_enableRegistry {b : RPCBridge} {id : ParticipantId}
    (hc : b.serviceRegistries.contains id = true) (q : ParticipantId) :
    (b.enableRegistry id).registryEnabled q = if q = id then true else b.registryEnabled q := by
  simp only [registryEnabled, enableRegistry, find_mapRegistry]
  split
  · obtain ⟨r, hr⟩ := Option.isSome_iff_exists.mp hc
    rw [hr]
    rfl
  · rfl

@[simp] theorem discoveredService_init (b : RPCBridge) (id : ParticipantId) (g : GuidPrefix) :
    (b.discoveredService id g).init = b.init := by
  unfold discoveredService
  simp only
  split
  · rw [enableRegistry, mapRegistry_init]
  · rfl

@[simp] theorem contains_discoveredService (b : RPCBridge) (id q : ParticipantId) (g : GuidPrefix) :
    (b.discoveredService id g).serviceRegistries.contains q = b.serviceRegistries.contains q := by
  unfold discoveredService
  simp only
  split
  · rw [enableRegistry, contains_mapRegistry]
  · rfl

theorem registryEnabled_discoveredService {b : RPCBridge} {id : ParticipantId}
    (hc : b.init = true → b.serviceRegistries.contains id = true) (g : GuidPrefix) (q : ParticipantId) :
    (b.discoveredService id g).registryEnabled q =
      if b.init = true ∧ q = id then true else b.registryEnabled q := by
  unfold discoveredService
  simp only
  split
  · rename_i hi
    have hon := registryEnabled_enableRegistry
      (b := { b with currentServers := b.currentServers.set id (insert g (b.servers id)) }) (hc hi) q
    rw [hon]
    simp only [hi, true_and]
    rfl
  · rename_i hi
    rw [if_neg fun h => hi h.1]
    rfl

theorem registryEnabled_set (b : RPCBridge) (id q : ParticipantId) (on : Bool)
    (servers : OrdMap ParticipantId (Finset GuidPrefix)) :
    registryEnabled { b with
      currentServers := servers
      serviceRegistries := b.serviceRegistries.set id { enabled := on } } q =
      if q = id then on else b.registryEnabled q := by
  simp only [registryEnabled, OrdMap.find_set, same_iff_eq]
  split <;> rfl

/-- The initialisation leaves its marks on the RTPS participants only. -/
theorem registryEnabled_of_initNts {created : ParticipantId → Creation} {ids : List ParticipantId}
    {b : RPCBridge} {q : ParticipantId} (h : (initNts created ids b).1.registryEnabled q = true) :
    q ∈ ids ∨ b.registryEnabled q = true := by
  induction ids generalizing b with
  | nil => exact .inr h
  | cons id rest ih =>
    have hset : ∀ servers on, registryEnabled { b with
        currentServers := servers
        serviceRegistries := b.serviceRegistries.set id { enabled := on } } q = true →
        q ∈ id :: rest ∨ b.registryEnabled q = true := by
      intro servers on hq
      rw [registryEnabled_set] at hq
      split at hq
      · rename_i heq
        exact .inl (by simp [heq])
      · exact .inr hq
    unfold initNts at h
    split at h
    · exact .inr h
    · exact hset _ _ h
    · rcases ih h with hr | hr
      · exact .inl (List.mem_cons_of_mem _ hr)
      · exact hset _ _ hr

/-- A complete initialisation enables the registries of the participants with
servers. -/
theorem registryEnabled_initNts {created : ParticipantId → Creation} {ids : List ParticipantId}
    {b : RPCBridge} (h : (initNts created ids b).2 = true) (q : ParticipantId) :
    (initNts created ids b).1.registryEnabled q =
      if q ∈ ids then decide (b.servers q ≠ ∅) else b.registryEnabled q := by
  induction ids generalizing b with
  | nil => rfl
  | cons id rest ih =>
    unfold initNts at h ⊢
    split at h
    · cases h
    · cases h
    · rw [ih h, registryEnabled_set, servers_set_self]
      by_cases hq : q = id
      · simp [hq]
      · simp [hq]

theorem contains_initNts {created : ParticipantId → Creation} {ids : List ParticipantId} {b : RPCBridge}
    (h : (initNts created ids b).2 = true) {q : ParticipantId}
    (hq : q ∈ ids ∨ b.serviceRegistries.contains q = true) :
    (initNts created ids b).1.serviceRegistries.contains q = true := by
  induction ids generalizing b with
  | nil =>
    rcases hq with hq | hq
    · cases hq
    · exact hq
  | cons id rest ih =>
    unfold initNts at h ⊢
    split at h
    · cases h
    · cases h
    · apply ih h
      rcases hq with hq | hq
      · rcases List.mem_cons.mp hq with rfl | hq
        · exact .inr (by simp)
        · exact .inl hq
      · exact .inr (by simp [hq])

theorem initNts_enabled (created : ParticipantId → Creation) (ids : List ParticipantId) (b : RPCBridge) :
    (initNts created ids b).1.enabled = b.enabled := by
  induction ids generalizing b with
  | nil => rfl
  | cons id rest ih =>
    unfold initNts
    split
    · rfl
    · rfl
    · exact ih _

theorem initNts_init (created : ParticipantId → Creation) (ids : List ParticipantId) (b : RPCBridge) :
    (initNts created ids b).1.init = (b.init || (initNts created ids b).2) := by
  induction ids generalizing b with
  | nil => simp [initNts]
  | cons id rest ih =>
    unfold initNts
    split
    · simp
    · simp
    · exact ih _

end RPCBridge

end DDSRouter
