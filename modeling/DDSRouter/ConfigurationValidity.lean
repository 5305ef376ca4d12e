import DDSRouter.TlsTransports
import DDSRouter.YamlReader

/-!
# The check of a whole configuration

`DDSRouterConfiguration::is_valid` asks its parent class and every participant.
The specs and the TLS configurations have checks of their own, which are not
called: a configuration without threads, or with TLS and without its files,
passes.
-/
namespace DDSRouter.Configuration

open YamlReader Outcome

/-! ### The parts -/

/-- `TlsConfiguration::is_valid`. -/
def TlsConfiguration.validityError (c : TlsConfiguration) : Option String :=
  match c.kind with
  | .client => c.clientError
  | .server => c.serverError
  | .both => c.bothError
  | .inactive => none

/-- `SpecsConfiguration::is_valid`. -/
def specsError (c : SpecsConfiguration) : Option String :=
  if c.numberOfThreads < 1 then some "Number of Threads must be at least 1." else none

/-- The classes that a configuration is cast to. -/
inductive ConfigurationClass where
  | participant | echo | simple | discoveryServer | initialPeers
  deriving DecidableEq, Repr

namespace Object

def base : AnyParticipantConfiguration → ParticipantConfiguration
  | .plain c => c
  | .echo c => c.toParticipantConfiguration
  | .simple c => c.toParticipantConfiguration
  | .discoveryServer c => c.toParticipantConfiguration
  | .initialPeers c => c.toParticipantConfiguration

/-- `is_valid`, which an `EchoParticipantConfiguration` inherits. -/
def validityError (dds : FastDds) : AnyParticipantConfiguration → Option String
  | .plain c => c.validityError
  | .echo c => c.toParticipantConfiguration.validityError
  | .simple c => c.validityError
  | .discoveryServer c => c.validityError dds
  | .initialPeers c => c.validityError dds

/-- Whether the cast to the class gives a pointer. -/
def isA : ConfigurationClass → AnyParticipantConfiguration → Bool
  | .participant, _ => true
  | .echo, .echo _ => true
  | .simple, .simple _ | .simple, .discoveryServer _ | .simple, .initialPeers _ => true
  | .discoveryServer, .discoveryServer _ => true
  | .initialPeers, .initialPeers _ => true
  | _, _ => false

def classOfKind : ParticipantKind → ConfigurationClass
  | .simpleRtps => .simple
  | .localDiscoveryServer | .wanDiscoveryServer => .discoveryServer
  | .wanInitialPeers => .initialPeers
  | .echo => .echo
  | .invalid | .blank | .dummy => .participant

/-- `check_correct_configuration_object_`. -/
def checkCorrectConfigurationObject (c : AnyParticipantConfiguration) : Bool := isA (classOfKind (base c).kind) c

/-- The TLS configuration of a discovery server or of initial peers, and the
attributes of the participant. -/
def tls? (dds : FastDds) : AnyParticipantConfiguration → Option (TlsConfiguration × (Nat → Outcome String Params))
  | .discoveryServer c => some (c.tlsConfiguration, fun fuel => c.getParticipantAttributes dds fuel)
  | .initialPeers c => some (c.tlsConfiguration, fun fuel => c.getParticipantAttributes dds fuel)
  | .plain _ | .echo _ | .simple _ => none

end Object

/-- A `DDSRouterConfiguration` as the code holds it, with pointers that may be null. -/
structure Pointers where
  allowlist : List (Option WildcardDdsFilterTopic) := []
  blocklist : List (Option WildcardDdsFilterTopic) := []
  builtinTopics : List (Option DdsTopic) := []
  participantsConfigurations : List (Option AnyParticipantConfiguration) := []
  advancedOptions : SpecsConfiguration := {}

namespace Pointers

variable (dds : FastDds) (pointerStr : DdsTopic → String)

/-- `DDSRouterReloadConfiguration::is_valid`; of a topic that is not valid the pointer is printed. -/
def reloadError (c : Pointers) : Option String :=
  (if c.allowlist.any Option.isNone then some "nullptr Filter Topic in allowlist. " else none) <|>
  (if c.blocklist.any Option.isNone then some "nullptr Filter Topic in blocklist. " else none) <|>
  c.builtinTopics.findSome? fun
    | none => some "nullptr Topic in builtin. "
    | some t => t.validityError.map fun e => e ++ "Invalid Topic " ++ pointerStr t ++ " in Builtin list. "

def idStr (c : AnyParticipantConfiguration) : String := "ParticipantId\x7b" ++ (Object.base c).id.id ++ "\x7d"

/-- One round of the loop over the participants. -/
def participantError : Option AnyParticipantConfiguration → Option String
  | none => some "nullptr ParticipantConfiguration in participant configurations. "
  | some c =>
    match Object.validityError dds c with
    | some e => some (e ++ "Error in Participant " ++ idStr c ++ ". ")
    | none =>
      if !Object.checkCorrectConfigurationObject c then
        some ("Participant " ++ idStr c ++ " is not of correct Configuration class. ")
      else none

/-- The configurations that the pointers point to. -/
def objects (c : Pointers) : List AnyParticipantConfiguration := c.participantsConfigurations.filterMap id

def ids (c : Pointers) : List ParticipantId := c.objects.map fun a => (Object.base a).id

/-- `DDSRouterConfiguration::is_valid`. -/
def validityError (c : Pointers) : Option String :=
  c.reloadError pointerStr <|>
  (if c.participantsConfigurations.length < 1 then some "There must be at least 1 participant." else none) <|>
  c.participantsConfigurations.findSome? (participantError dds) <|>
  if (OrdMap.ofKeys c.ids).size ≠ c.participantsConfigurations.length then some "Participant ids are not unique. "
  else none

def isValid (c : Pointers) : Bool := (c.validityError dds pointerStr).isNone

end Pointers

/-- What `DDSRouterImpl` has of its configuration: the threads of its pool. -/
structure DDSRouterImpl where
  threads : UInt32
  deriving DecidableEq, Repr

/-- The constructor up to the check, which comes after the pool is created. -/
def DDSRouterImpl.create (dds : FastDds) (pointerStr : DdsTopic → String) (c : Pointers) : Except String DDSRouterImpl :=
  let impl : DDSRouterImpl := { threads := c.advancedOptions.numberOfThreads }
  match c.validityError dds pointerStr with
  | some e => .error ("Configuration for DDS Router is invalid: " ++ e)
  | none => .ok impl

/-- The configuration as the reader fills it. -/
def pointersOf (c : DDSRouterConfiguration) : Pointers :=
  { allowlist := c.allowlist.map some, blocklist := c.blocklist.map some, builtinTopics := c.builtinTopics.map some
    participantsConfigurations := c.participantsConfigurations.map some, advancedOptions := c.advancedOptions }

theorem reloadError_pointersOf (pointerStr : DdsTopic → String) (c : DDSRouterConfiguration) :
    (pointersOf c).reloadError pointerStr = none ↔ c.toReloadConfiguration.isValid = true := by
  simp [Pointers.reloadError, pointersOf, Router.ReloadConfiguration.isValid, DdsTopic.isValid, List.findSome?_eq_none_iff]

/-! ### What the check promises, and what not -/

/-- The files that the kind of TLS needs are given. -/
structure FilesGiven (tls : TlsConfiguration) : Prop where
  client : tls.kind = .client ∨ tls.kind = .both → tls.verifyPeer = true → tls.certificateAuthorityFile ≠ ""
  server : tls.kind = .server ∨ tls.kind = .both →
    tls.privateKeyFile ≠ "" ∧ tls.dhParamsFile ≠ "" ∧ tls.certificateChainFile ≠ ""

theorem clientError_eq_none {tls : TlsConfiguration} :
    tls.clientError = none ↔ (tls.verifyPeer = true → tls.certificateAuthorityFile ≠ "") := by
  simp [TlsConfiguration.clientError]

theorem serverError_eq_none {tls : TlsConfiguration} :
    tls.serverError = none ↔ tls.privateKeyFile ≠ "" ∧ tls.dhParamsFile ≠ "" ∧ tls.certificateChainFile ≠ "" := by
  unfold TlsConfiguration.serverError
  by_cases hk : tls.privateKeyFile = "" <;> by_cases hd : tls.dhParamsFile = "" <;>
    by_cases hc : tls.certificateChainFile = "" <;> simp [hk, hd, hc]

theorem tls_validityError_eq_none {tls : TlsConfiguration} : tls.validityError = none ↔ FilesGiven tls := by
  unfold TlsConfiguration.validityError
  cases hk : tls.kind with
  | inactive => exact ⟨fun _ => ⟨by simp [hk], by simp [hk]⟩, fun _ => rfl⟩
  | client =>
    simp only [clientError_eq_none]
    exact ⟨fun h => ⟨fun _ => h, by simp [hk]⟩, fun h => h.client (.inl hk)⟩
  | server =>
    simp only [serverError_eq_none]
    exact ⟨fun h => ⟨by simp [hk], fun _ => h⟩, fun h => h.server (.inl hk)⟩
  | both =>
    simp only [TlsConfiguration.bothError, Option.orElse_eq_orElse, Option.orElse_eq_or, Option.or_eq_none_iff,
      clientError_eq_none, serverError_eq_none]
    exact ⟨fun h => ⟨fun _ => h.1, fun _ => h.2⟩, fun h => ⟨h.client (.inr hk), h.server (.inr hk)⟩⟩

/-- A descriptor has the files for what it is used for: those of a server where
it is listened on, and the authority where peers are verified. -/
structure FilesPresent (tls : TlsConfiguration) (d : TCPTransport) : Prop where
  security : d.applySecurity = true
  server : d.listeningPorts ≠ [] →
    d.tlsConfig.privateKeyFile ≠ "" ∧ d.tlsConfig.tmpDhFile ≠ "" ∧ d.tlsConfig.certChainFile ≠ ""
  client : d.listeningPorts = [] ∨ tls.kind = .both → tls.verifyPeer = true → d.tlsConfig.verifyFile ≠ ""

/-- Every component passes its own check, and what a router makes of the
configuration can be used. -/
structure Hereditary (dds : FastDds) (pointerStr : DdsTopic → String) (c : Pointers) : Prop where
  specs : specsError c.advancedOptions = none
  participants : ∀ p ∈ c.participantsConfigurations, ∃ a, p = some a ∧ Object.validityError dds a = none
  tls : ∀ a ∈ c.objects, ∀ tls attributes, Object.tls? dds a = some (tls, attributes) → tls.validityError = none
  ids : ∀ a ∈ c.objects, (Object.base a).id.isValid = true
  distinct : c.ids.Nodup
  classes : ∀ a ∈ c.objects, Object.isA (Object.classOfKind (Object.base a).kind) a = true
  threads : ∀ impl, DDSRouterImpl.create dds pointerStr c = .ok impl → impl.threads ≠ 0
  descriptors : ∀ a ∈ c.objects, ∀ tls attributes, Object.tls? dds a = some (tls, attributes) → tls.isActive = true →
    ∀ fuel p, attributes fuel = returns p → ∀ t ∈ p.userTransports, ∀ d, t.tcp? = some d → FilesPresent tls d

/-- There are threads, and every TLS configuration has the files of its kind. -/
structure Usable (dds : FastDds) (c : Pointers) : Prop where
  threads : 1 ≤ c.advancedOptions.numberOfThreads
  files : ∀ a ∈ c.objects, ∀ tls attributes, Object.tls? dds a = some (tls, attributes) → FilesGiven tls

variable {dds : FastDds} {pointerStr : DdsTopic → String} {c : Pointers}

theorem specsError_eq_none {s : SpecsConfiguration} : specsError s = none ↔ 1 ≤ s.numberOfThreads := by
  unfold specsError
  split
  · rename_i h
    simp [UInt32.not_le.mpr h]
  · rename_i h
    simp [UInt32.not_lt.mp h]

theorem simple_base {c : SimpleParticipantConfiguration} (h : c.validityError = none) :
    c.toParticipantConfiguration.validityError = none := by
  simp only [SimpleParticipantConfiguration.validityError, Option.orElse_eq_orElse, Option.orElse_eq_or,
    Option.or_eq_none_iff] at h
  exact h.1

theorem base_validityError {a : AnyParticipantConfiguration} (h : Object.validityError dds a = none) :
    (Object.base a).validityError = none := by
  cases a with
  | plain c => exact h
  | echo c => exact h
  | simple c => exact simple_base h
  | discoveryServer c =>
    simp only [Object.validityError, DiscoveryServerParticipantConfiguration.validityError, Option.orElse_eq_orElse,
      Option.orElse_eq_or, Option.or_eq_none_iff] at h
    exact simple_base h.1
  | initialPeers c =>
    simp only [Object.validityError, InitialPeersParticipantConfiguration.validityError, Option.orElse_eq_orElse,
      Option.orElse_eq_or, Option.or_eq_none_iff] at h
    exact simple_base h.1

theorem id_isValid {b : ParticipantConfiguration} (h : b.validityError = none) : b.id.isValid = true := by
  unfold ParticipantConfiguration.validityError at h
  split at h
  · cases h
  · rename_i hid
    simpa using hid

/-- The round of a participant that passes. -/
theorem participantError_eq_none {p : Option AnyParticipantConfiguration} :
    Pointers.participantError dds p = none ↔
      ∃ a, p = some a ∧ Object.validityError dds a = none ∧ Object.checkCorrectConfigurationObject a = true := by
  cases p with
  | none => simp [Pointers.participantError]
  | some a =>
    simp only [Pointers.participantError, Option.some.injEq, exists_eq_left']
    cases Object.validityError dds a with
    | some e => simp
    | none => simp

/-- What a valid configuration is known to have. -/
structure Passed (dds : FastDds) (c : Pointers) : Prop where
  participants : ∀ p ∈ c.participantsConfigurations,
    ∃ a, p = some a ∧ Object.validityError dds a = none ∧ Object.checkCorrectConfigurationObject a = true
  distinct : c.ids.Nodup

theorem passed_of_isValid (h : c.isValid dds pointerStr = true) : Passed dds c := by
  simp only [Pointers.isValid, Option.isNone_iff_eq_none, Pointers.validityError, Option.orElse_eq_orElse,
    Option.orElse_eq_or, Option.or_eq_none_iff, List.findSome?_eq_none_iff] at h
  obtain ⟨-, -, hparticipants, hids⟩ := h
  have hpassed : ∀ p ∈ c.participantsConfigurations, ∃ a, p = some a ∧ Object.validityError dds a = none ∧
      Object.checkCorrectConfigurationObject a = true := fun p hp => participantError_eq_none.mp (hparticipants p hp)
  -- no pointer is null, so that there is an id for each
  have hlength : c.ids.length = c.participantsConfigurations.length := by
    rw [Pointers.ids, List.length_map, Pointers.objects, List.length_filterMap_eq_countP, List.countP_eq_length]
    intro p hp
    obtain ⟨a, rfl, -⟩ := hpassed p hp
    rfl
  refine ⟨hpassed, OrdMap.size_ofKeys_eq_iff.mp ?_⟩
  rw [hlength]
  split at hids
  · cases hids
  · rename_i hsize
    simpa using hsize

theorem Passed.object (h : Passed dds c) {a : AnyParticipantConfiguration} (ha : a ∈ c.objects) :
    Object.validityError dds a = none ∧ Object.checkCorrectConfigurationObject a = true := by
  simp only [Pointers.objects, List.mem_filterMap, id_eq, exists_eq_right] at ha
  obtain ⟨a', heq, hvalid, hclass⟩ := h.participants (some a) ha
  cases heq
  exact ⟨hvalid, hclass⟩

/-- A valid participant with a TLS configuration gets its attributes from its addresses. -/
theorem attributed_of_valid {a : AnyParticipantConfiguration} (h : Object.validityError dds a = none)
    {tls : TlsConfiguration} {attributes : Nat → Outcome String Params}
    (ha : Object.tls? dds a = some (tls, attributes)) :
    ∃ listening connection, Attributed dds tls listening connection attributes := by
  cases a with
  | plain c => cases ha
  | echo c => cases ha
  | simple c => cases ha
  | discoveryServer c =>
    have hvalid : c.isValid dds = true := Option.isNone_iff_eq_none.mpr h
    cases ha
    exact ⟨_, _, discoveryServer_attributed hvalid⟩
  | initialPeers c =>
    have hvalid : c.isValid dds = true := Option.isNone_iff_eq_none.mpr h
    cases ha
    exact ⟨_, _, initialPeers_attributed hvalid⟩

theorem kind_of_compatible {tls : TlsConfiguration} :
    (tls.compatible .server = true → tls.kind = .server ∨ tls.kind = .both) ∧
      (tls.compatible .client = true → tls.kind = .client ∨ tls.kind = .both) := by
  unfold TlsConfiguration.compatible
  cases tls.kind <;> simp

/-- The files that are given reach the descriptors that need them. -/
theorem filesPresent {a : AnyParticipantConfiguration} (h : Object.validityError dds a = none)
    {tls : TlsConfiguration} {attributes : Nat → Outcome String Params}
    (ha : Object.tls? dds a = some (tls, attributes)) (hactive : tls.isActive = true) (hfiles : FilesGiven tls)
    {fuel : Nat} {p : Params} (hp : attributes fuel = returns p) {t : Transport} (ht : t ∈ p.userTransports) {d : TCPTransport}
    (hd : t.tcp? = some d) : FilesPresent tls d := by
  obtain ⟨listening, connection, hattributed⟩ := attributed_of_valid h ha
  have hsecured := (hattributed.tlsApplied hactive).every fuel p hp t ht d hd
  obtain ⟨hserver, hclient⟩ := hattributed.roles hactive hp t ht d hd
  refine ⟨hsecured.security, fun hports => ?_, fun hrole hverify => ?_⟩
  · have hfields := hsecured.server hports
    rw [hfields.privateKey, hfields.dh, hfields.certChain]
    exact hfiles.server (kind_of_compatible.1 (hserver hports))
  · by_cases hports : d.listeningPorts = []
    · rw [(hsecured.client hports).1.authority]
      exact hfiles.client (kind_of_compatible.2 (hclient hports)) hverify
    · have hboth := hrole.resolve_left hports
      rw [(hsecured.both hports hboth).authority]
      exact hfiles.client (.inr hboth) hverify

/-- Of a configuration that passes the check every part passes its own iff there
are threads and the files of every TLS configuration: nothing else is missed. -/
theorem hereditary_iff_usable (dds : FastDds) (pointerStr : DdsTopic → String) (c : Pointers)
    (h : c.isValid dds pointerStr = true) : Hereditary dds pointerStr c ↔ Usable dds c := by
  have hpassed := passed_of_isValid h
  constructor
  · intro hhered
    exact ⟨specsError_eq_none.mp hhered.specs, fun a ha tls attributes htls =>
      tls_validityError_eq_none.mp (hhered.tls a ha tls attributes htls)⟩
  · intro husable
    refine
      { specs := specsError_eq_none.mpr husable.threads
        participants := fun p hp => ?_
        tls := fun a ha tls attributes htls => tls_validityError_eq_none.mpr (husable.files a ha tls attributes htls)
        ids := fun a ha => id_isValid (base_validityError (hpassed.object ha).1)
        distinct := hpassed.distinct
        classes := fun a ha => (hpassed.object ha).2
        threads := fun impl himpl => ?_
        descriptors := fun a ha tls attributes htls hactive fuel p hp t ht d hd =>
          filesPresent (hpassed.object ha).1 htls hactive (husable.files a ha tls attributes htls) hp ht hd }
    · obtain ⟨a, hpa, hvalid, -⟩ := hpassed.participants p hp
      exact ⟨a, hpa, hvalid⟩
    · have hnone : c.validityError dds pointerStr = none := Option.isNone_iff_eq_none.mp h
      simp only [DDSRouterImpl.create, hnone, Except.ok.injEq] at himpl
      rw [← himpl]
      intro (hzero : c.advancedOptions.numberOfThreads = 0)
      have hthreads := husable.threads
      rw [hzero] at hthreads
      exact absurd hthreads (by decide)

/-- One participant, and a pool without threads. -/
def withoutThreads : Pointers :=
  { participantsConfigurations := [some (.simple { id := ⟨"p"⟩, kind := .simpleRtps })]
    advancedOptions := { numberOfThreads := 0 } }

/-- A listening participant that is to use TLS and has no key. -/
def withoutKey : Pointers :=
  { participantsConfigurations :=
      [some (.initialPeers { twoPorts with kind := .wanInitialPeers, tlsConfiguration := { kind := .server } })] }

/-- Three participants, two of them with TLS and its files. -/
def withTls : Pointers :=
  { participantsConfigurations :=
      [some (.simple { id := ⟨"p"⟩, kind := .simpleRtps }), some (.initialPeers twoPortsTls),
        some (.discoveryServer serverTls)]
    builtinTopics := [some { topicName := "t", typeName := "T" }] }

theorem hereditary_withTls : Hereditary plainDds (fun _ => "") withTls := by
  have hfiles : FilesGiven bothTls := tls_validityError_eq_none.mp (by decide)
  refine (hereditary_iff_usable plainDds (fun _ => "") withTls (by decide)).mpr ⟨by decide, ?_⟩
  intro a ha tls attributes htls
  have ha : a = .simple { id := ⟨"p"⟩, kind := .simpleRtps } ∨ a = .initialPeers twoPortsTls ∨
      a = .discoveryServer serverTls := by simpa [Pointers.objects, withTls] using ha
  rcases ha with rfl | rfl | rfl
  · cases htls
  · cases htls
    exact hfiles
  · cases htls
    exact hfiles

/-- Neither a pool without threads nor TLS without files is noticed. -/
theorem valid_not_hereditary :
    (withoutThreads.isValid plainDds (fun _ => "") = true ∧ ¬ Hereditary plainDds (fun _ => "") withoutThreads) ∧
      withoutKey.isValid plainDds (fun _ => "") = true ∧ ¬ Hereditary plainDds (fun _ => "") withoutKey := by
  refine ⟨⟨by decide, fun h => ?_⟩, by decide, fun h => ?_⟩
  · exact absurd h.specs (by decide)
  · have htls := h.tls _ List.mem_cons_self { kind := .server } _ rfl
    exact absurd htls (by decide)

end DDSRouter.Configuration
