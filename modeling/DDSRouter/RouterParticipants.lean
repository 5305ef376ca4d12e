import DDSRouter.HistoryDefaults

/-!
# The participants of a router

The constructor of the router checks its configuration and then makes a participant of
each entry, in the order of pointers. The factory casts the entry to the class of its
kind, and the database takes an id only once. Both can throw, but for a configuration
that was checked they do not: all that is left to fail is Fast DDS.
-/
namespace DDSRouter.Configuration

open Documents YamlReader WeakOrder Outcome

/-- `PARTICIPANT_KIND_STRINGS`. -/
def ParticipantKind.str : ParticipantKind → String
  | .invalid => "invalid"
  | .blank => "blank"
  | .echo => "echo"
  | .dummy => "dummy"
  | .simpleRtps => "simple-rtps"
  | .localDiscoveryServer => "local-discovery-server"
  | .wanDiscoveryServer => "wan-ds"
  | .wanInitialPeers => "wan-initial-peers"

/-- What a participant answers through its interface. -/
structure IParticipant where
  id : ParticipantId
  kind : ParticipantKind
  isRepeater : Bool
  deriving DecidableEq, Repr

/-- `BaseParticipant::is_rtps_kind`. -/
def isRtpsKind : ParticipantKind → Bool
  | .simpleRtps | .localDiscoveryServer | .wanDiscoveryServer | .wanInitialPeers => true
  | .invalid | .blank | .echo | .dummy => false

/-- `is_rtps_kind`, which is `false` in a `BlankParticipant`, as for the kinds of these. -/
def IParticipant.isRtpsKind (p : IParticipant) : Bool := Configuration.isRtpsKind p.kind

/-- A `BaseParticipant` answers from its configuration. -/
def baseParticipant (c : ParticipantConfiguration) : IParticipant :=
  { id := c.id, kind := c.kind, isRepeater := c.isRepeater }

def blankParticipant (id : ParticipantId) : IParticipant := { id := id, kind := .blank, isRepeater := false }

/-- A `BlankParticipant` but for its kind. -/
def echoParticipant (id : ParticipantId) : IParticipant := { blankParticipant id with kind := .echo }

inductive CreationException where
  | configuration (message : String)
  | initialization (message : String)
  deriving DecidableEq, Repr

namespace ParticipantFactory

/-- The cast of the configuration to the class that its kind asks for has failed. -/
def wrongClass (c : AnyParticipantConfiguration) : CreationException :=
  .configuration ("Configuration from Participant: " ++ Pointers.idStr c ++ " is not for Participant Kind: " ++
    (Object.base c).kind.str)

-- `fuel` are the rounds that each search for a transport is given
variable (dds : FastDds) (init : AnyParticipantConfiguration → Option String) (fuel : Nat)

/-- `init` of a participant over RTPS, which throws where Fast DDS fails. -/
def initialized (c : AnyParticipantConfiguration) : Outcome CreationException IParticipant :=
  match init c with
  | some message => throws (.initialization message)
  | none => returns (baseParticipant (Object.base c))

/-- A constructor that computes the attributes of the participant, and `init`. -/
def attributed (attributes : Nat → Outcome String Params) (c : AnyParticipantConfiguration) :
    Outcome CreationException IParticipant := do
  let _ ← (attributes fuel).mapError CreationException.configuration
  initialized init c

def createParticipant (c : AnyParticipantConfiguration) : Outcome CreationException IParticipant :=
  match (Object.base c).kind with
  | .blank => returns (blankParticipant (Object.base c).id)
  | .dummy => returns (baseParticipant (Object.base c))
  | .echo => if Object.isA .echo c then returns (echoParticipant (Object.base c).id) else throws (wrongClass c)
  | .simpleRtps => if Object.isA .simple c then initialized init c else throws (wrongClass c)
  | .localDiscoveryServer | .wanDiscoveryServer =>
    match c with
    | .discoveryServer conf => attributed init fuel (fun n => conf.getParticipantAttributes dds n) c
    | _ => throws (wrongClass c)
  | .wanInitialPeers =>
    match c with
    | .initialPeers conf => attributed init fuel (fun n => conf.getParticipantAttributes dds n) c
    | _ => throws (wrongClass c)
  | .invalid =>
    throws (.configuration ("Kind: " ++ ParticipantKind.str .invalid ++ " is not a valid participant kind name."))

end ParticipantFactory

/-- `ParticipantsDatabase`. -/
abbrev Participants := OrdMap ParticipantId IParticipant

namespace Participants

/-- `none` where the id is in the database already. -/
def addParticipant (db : Participants) (id : ParticipantId) (p : IParticipant) : Option Participants :=
  if db.contains id then none else some (db.set id p)

def getParticipantsIds (db : Participants) : List ParticipantId := db.keys

def getRtpsParticipantsIds (db : Participants) : List ParticipantId :=
  (db.entries.filter fun e => e.2.isRtpsKind).map Prod.fst

end Participants

namespace DDSRouterImpl

open ParticipantFactory

variable (dds : FastDds) (pointerStr : DdsTopic → String) (init : AnyParticipantConfiguration → Option String)
  (fuel : Nat)

/-- The body of the loop of `init_participants_`. -/
def initParticipant (db : Participants) (c : AnyParticipantConfiguration) : Outcome CreationException Participants := do
  let p ← createParticipant dds init fuel c
  if !p.id.isValid || p.kind = .invalid then
    throws (.initialization ("Failed to create creating Participant " ++ Pointers.idStr c))
  else
    match db.addParticipant p.id p with
    | some db => returns db
    | none =>
      throws (.configuration
        ("Participant ids must be unique. The id ParticipantId\x7b" ++ p.id.id ++ "\x7d is duplicated."))

/-- `init_participants_`, after the check, so that no pointer is null. -/
def initParticipants (p : Pointers) : Outcome CreationException Participants := do
  let db ← p.objects.foldlM (initParticipant dds init fuel) OrdMap.empty
  if db.size < 1 then throws (.initialization "DDS Router requires at least 1 Participant to start.") else returns db

/-- The constructor up to its participants. -/
def construct (p : Pointers) : Outcome CreationException Participants :=
  match create dds pointerStr p with
  | .error message => throws (.configuration message)
  | .ok _ => initParticipants dds init fuel p

end DDSRouterImpl

/-! ### What the factory makes of a checked configuration -/

/-- The participant of a configuration whose class is that of its kind. -/
def participantOf (c : AnyParticipantConfiguration) : IParticipant :=
  match (Object.base c).kind with
  | .blank => blankParticipant (Object.base c).id
  | .echo => echoParticipant (Object.base c).id
  | _ => baseParticipant (Object.base c)

@[simp] theorem participantOf_id (c : AnyParticipantConfiguration) : (participantOf c).id = (Object.base c).id := by
  unfold participantOf
  split <;> rfl

@[simp] theorem participantOf_kind (c : AnyParticipantConfiguration) :
    (participantOf c).kind = (Object.base c).kind := by
  unfold participantOf
  split
  · rename_i h
    exact h.symm
  · rename_i h
    exact h.symm
  · rfl

/-- The addresses for which the constructor of the participant looks for transports. -/
def searched (c : AnyParticipantConfiguration) : List Address :=
  match (Object.base c).kind, c with
  | .localDiscoveryServer, .discoveryServer conf | .wanDiscoveryServer, .discoveryServer conf =>
    conf.listeningAddresses.keys
  | .wanInitialPeers, .initialPeers conf => conf.listeningAddresses.keys
  | _, _ => []

/-- All of these searches end. -/
def Listens (dds : FastDds) (c : AnyParticipantConfiguration) : Prop :=
  Searchable dds.wanAddress ((searched c).filter Address.isTcp)

section Factory

open ParticipantFactory

variable {dds : FastDds} {init : AnyParticipantConfiguration → Option String} {fuel : Nat}
  {c : AnyParticipantConfiguration} {l : List AnyParticipantConfiguration}

/-- The failure of Fast DDS to make a participant, for those over RTPS. -/
def failure (init : AnyParticipantConfiguration → Option String) (c : AnyParticipantConfiguration) : Option String :=
  if isRtpsKind (Object.base c).kind then init c else none

/-- The configuration passes its own check and is of the class of its kind. -/
def Sound (dds : FastDds) (c : AnyParticipantConfiguration) : Prop :=
  Object.validityError dds c = none ∧ Object.checkCorrectConfigurationObject c = true

theorem kind_of_valid {b : ParticipantConfiguration} (h : b.validityError = none) : b.kind ≠ .invalid := by
  intro hk
  unfold ParticipantConfiguration.validityError at h
  split at h
  · cases h
  · cases h

/-- The participant, or the exception of Fast DDS. -/
def outcome (init : AnyParticipantConfiguration → Option String) (c : AnyParticipantConfiguration) :
    Outcome CreationException IParticipant :=
  match failure init c with
  | some message => throws (.initialization message)
  | none => returns (participantOf c)

/-- What the factory does with a configuration, depending on the rounds that it is given. -/
structure Made (dds : FastDds) (init : AnyParticipantConfiguration → Option String) (c : AnyParticipantConfiguration) :
    Prop where
  ends : Listens dds c → createParticipant dds init 1 c = outcome init c
  never : ¬ Listens dds c → ∀ fuel, createParticipant dds init fuel c = running
  result : ∀ fuel, createParticipant dds init fuel c = running ∨ createParticipant dds init fuel c = outcome init c

theorem made_of_eq (hlistens : Listens dds c) (h : ∀ fuel, createParticipant dds init fuel c = outcome init c) :
    Made dds init c :=
  ⟨fun _ => h 1, fun hnot => absurd hlistens hnot, fun fuel => .inr (h fuel)⟩

/-- A participant that computes its attributes. -/
theorem made_of_attributed {tls : TlsConfiguration} {connection : List Address}
    {attributes : Nat → Outcome String Params}
    (h : Attributed dds tls (searched c) connection attributes)
    (hc : ∀ fuel, createParticipant dds init fuel c = attributed init fuel attributes c)
    (hinit : initialized init c = outcome init c) : Made dds init c := by
  have hreturns : ∀ {fuel p}, attributes fuel = returns p → createParticipant dds init fuel c = outcome init c := by
    intro fuel p hp
    rw [hc, attributed, hp, ← hinit]
    rfl
  have hcases : ∀ fuel, (attributes fuel = running ∧ createParticipant dds init fuel c = running) ∨
      ∃ p, attributes fuel = returns p := by
    intro fuel
    cases ha : attributes fuel with
    | returns p => exact .inr ⟨p, rfl⟩
    | throws message => exact absurd ha (h.not_throws fuel message)
    | running => exact .inl ⟨rfl, by rw [hc, attributed, ha]; rfl⟩
  refine ⟨fun hl => ?_, fun hnot fuel => ?_, fun fuel => ?_⟩
  · obtain ⟨p, hp⟩ := h.returns_one hl
    exact hreturns hp
  · rcases hcases fuel with ⟨-, hrunning⟩ | ⟨p, hp⟩
    · exact hrunning
    · exact absurd (h.returns_iff.mp ⟨fuel, p, hp⟩) hnot
  · rcases hcases fuel with ⟨-, hrunning⟩ | ⟨p, hp⟩
    · exact .inl hrunning
    · exact .inr (hreturns hp)

theorem made_of_sound (h : Sound dds c) : Made dds init c := by
  obtain ⟨hvalid, hclass⟩ := h
  have hinit : isRtpsKind (Object.base c).kind = true → initialized init c = outcome init c := by
    intro hk
    have hof : participantOf c = baseParticipant (Object.base c) := by
      unfold participantOf
      split
      · simp_all [isRtpsKind]
      · simp_all [isRtpsKind]
      · rfl
    rw [initialized, outcome, failure, if_pos hk, hof]
  unfold Object.checkCorrectConfigurationObject at hclass
  cases hk : (Object.base c).kind with
  | invalid => exact absurd hk (kind_of_valid (base_validityError hvalid))
  | blank =>
    refine made_of_eq ?_ fun fuel => ?_
    · simp [Listens, searched, hk, Searchable]
    · simp [createParticipant, outcome, failure, participantOf, hk, isRtpsKind]
  | dummy =>
    refine made_of_eq ?_ fun fuel => ?_
    · simp [Listens, searched, hk, Searchable]
    · simp [createParticipant, outcome, failure, participantOf, hk, isRtpsKind]
  | echo =>
    rw [hk] at hclass
    refine made_of_eq ?_ fun fuel => ?_
    · simp [Listens, searched, hk, Searchable]
    · have hecho : Object.isA .echo c = true := hclass
      simp [createParticipant, outcome, failure, participantOf, hk, isRtpsKind, hecho]
  | simpleRtps =>
    rw [hk] at hclass
    refine made_of_eq ?_ fun fuel => ?_
    · simp [Listens, searched, hk, Searchable]
    · have hsimple : Object.isA .simple c = true := hclass
      rw [← hinit (by rw [hk]; rfl)]
      simp [createParticipant, hk, hsimple]
  | localDiscoveryServer | wanDiscoveryServer =>
    rw [hk] at hclass
    cases c with
    | discoveryServer conf =>
      have hattributed := discoveryServer_attributed (c := conf) (Option.isNone_iff_eq_none.mpr hvalid)
      have hsearched : searched (.discoveryServer conf) = conf.listeningAddresses.keys := by simp [searched, hk]
      rw [← hsearched] at hattributed
      exact made_of_attributed hattributed (fun fuel => by simp [createParticipant, hk]) (hinit (by rw [hk]; rfl))
    | plain | echo | simple | initialPeers => cases hclass
  | wanInitialPeers =>
    rw [hk] at hclass
    cases c with
    | initialPeers conf =>
      have hattributed := initialPeers_attributed (c := conf) (Option.isNone_iff_eq_none.mpr hvalid)
      have hsearched : searched (.initialPeers conf) = conf.listeningAddresses.keys := by simp [searched, hk]
      rw [← hsearched] at hattributed
      exact made_of_attributed hattributed (fun fuel => by simp [createParticipant, hk]) (hinit (by rw [hk]; rfl))
    | plain | echo | simple | discoveryServer => cases hclass

theorem Made.of_returns (h : Made dds init c) {p : IParticipant} (hp : createParticipant dds init fuel c = returns p) :
    p = participantOf c ∧ Listens dds c ∧ failure init c = none := by
  have hlistens : Listens dds c := by
    by_contra hnot
    rw [h.never hnot] at hp
    cases hp
  rcases h.result fuel with hrunning | hresult
  · rw [hrunning] at hp
    cases hp
  · rw [hresult, outcome] at hp
    split at hp
    · cases hp
    · rename_i hnone
      cases hp
      exact ⟨rfl, hlistens, hnone⟩

theorem Made.of_throws (h : Made dds init c) {e : CreationException}
    (he : createParticipant dds init fuel c = throws e) :
    ∃ message, failure init c = some message ∧ e = .initialization message := by
  rcases h.result fuel with hrunning | hresult
  · rw [hrunning] at he
    cases he
  · rw [hresult, outcome] at he
    split at he
    · rename_i message hsome
      cases he
      exact ⟨message, hsome, rfl⟩
    · cases he

theorem Made.returns_one (h : Made dds init c) (hl : Listens dds c) (hf : failure init c = none) :
    createParticipant dds init 1 c = returns (participantOf c) := by
  rw [h.ends hl, outcome, hf]

/-- Whatever is made of it enters the database. -/
theorem initParticipant_eq {db : Participants} (h : Sound dds c) (hnew : db.contains (Object.base c).id = false) :
    DDSRouterImpl.initParticipant dds init fuel db c =
      (createParticipant dds init fuel c >>= fun p => returns (db.set (Object.base c).id p)) := by
  rw [DDSRouterImpl.initParticipant]
  cases hc : createParticipant dds init fuel c with
  | running => rfl
  | throws e => rfl
  | returns p =>
    obtain ⟨rfl, -, -⟩ := (made_of_sound h).of_returns hc
    have hbase := base_validityError h.1
    have hpass : (!(participantOf c).id.isValid || decide ((participantOf c).kind = .invalid)) = false := by
      rw [participantOf_id, participantOf_kind, id_isValid hbase]
      simp [kind_of_valid hbase]
    have hadd : db.addParticipant (participantOf c).id (participantOf c) =
        some (db.set (Object.base c).id (participantOf c)) := by
      rw [Participants.addParticipant, participantOf_id, hnew]
      rfl
    simp only [returns_bind, hpass, Bool.false_eq_true, if_false, hadd]

/-- The database of the participants that were made. -/
def filled (db : Participants) (l : List AnyParticipantConfiguration) : Participants :=
  l.foldl (fun db c => db.set (Object.base c).id (participantOf c)) db

/-- The loop makes all participants, or comes to its end with one that throws, or never
gets past one. -/
theorem foldlM_initParticipant {db : Participants} (h : ∀ c ∈ l, Sound dds c)
    (hids : (l.map fun c => (Object.base c).id).Nodup) (hnew : ∀ c ∈ l, db.contains (Object.base c).id = false) :
    ((∀ c ∈ l, createParticipant dds init fuel c = returns (participantOf c)) ∧
        l.foldlM (DDSRouterImpl.initParticipant dds init fuel) db = returns (filled db l)) ∨
      ∃ before a after, l = before ++ a :: after ∧
        (∀ b ∈ before, createParticipant dds init fuel b = returns (participantOf b)) ∧
        ((createParticipant dds init fuel a = running ∧
            l.foldlM (DDSRouterImpl.initParticipant dds init fuel) db = running) ∨
          ∃ e, createParticipant dds init fuel a = throws e ∧
            l.foldlM (DDSRouterImpl.initParticipant dds init fuel) db = throws e) := by
  induction l generalizing db with
  | nil => exact .inl ⟨by simp, rfl⟩
  | cons c l ih =>
    rw [List.map_cons, List.nodup_cons] at hids
    rw [List.foldlM_cons, initParticipant_eq (h c List.mem_cons_self) (hnew c List.mem_cons_self)]
    cases hc : createParticipant dds init fuel c with
    | running => exact .inr ⟨[], c, l, rfl, by simp, .inl ⟨hc, rfl⟩⟩
    | throws e => exact .inr ⟨[], c, l, rfl, by simp, .inr ⟨e, hc, rfl⟩⟩
    | returns p =>
      obtain ⟨rfl, -, -⟩ := (made_of_sound (h c List.mem_cons_self)).of_returns hc
      have hnew' : ∀ a ∈ l, (db.set (Object.base c).id (participantOf c)).contains (Object.base a).id = false := by
        intro a ha
        have hne : same (Object.base a).id (Object.base c).id = false := by
          rw [Bool.eq_false_iff, Ne, same_iff_eq]
          intro heq
          exact hids.1 (heq ▸ List.mem_map_of_mem ha)
        rw [OrdMap.contains, OrdMap.find_set, hne]
        exact hnew a (List.mem_cons_of_mem c ha)
      rcases ih (fun a ha => h a (List.mem_cons_of_mem c ha)) hids.2 hnew' with
        ⟨hall, hloop⟩ | ⟨before, a, after, rfl, hbefore, hlast⟩
      · exact .inl ⟨List.forall_mem_cons.mpr ⟨hc, hall⟩, hloop⟩
      · exact .inr ⟨c :: before, a, after, rfl, List.forall_mem_cons.mpr ⟨hc, hbefore⟩, hlast⟩

theorem find_filled (hids : (l.map fun c => (Object.base c).id).Nodup) (db : Participants) (id : ParticipantId)
    (p : IParticipant) :
    (filled db l).find id = some p ↔
      (∃ c ∈ l, (Object.base c).id = id ∧ participantOf c = p) ∨
        (∀ c ∈ l, (Object.base c).id ≠ id) ∧ db.find id = some p := by
  induction l generalizing db with
  | nil => simp [filled]
  | cons c l ih =>
    rw [List.map_cons, List.nodup_cons] at hids
    rw [filled, List.foldl_cons, ← filled, ih hids.2, OrdMap.find_set]
    by_cases hid : (Object.base c).id = id
    · have hfirst : ∀ a ∈ l, (Object.base a).id ≠ id := by
        rintro a ha rfl
        exact hids.1 (hid ▸ List.mem_map_of_mem ha)
      have hsame : same id (Object.base c).id = true := by rw [same_iff_eq, hid]
      rw [hsame, if_pos rfl, Option.some.injEq]
      constructor
      · rintro (⟨a, ha, heq, -⟩ | ⟨-, heq⟩)
        · exact absurd heq (hfirst a ha)
        · exact .inl ⟨c, List.mem_cons_self, hid, heq⟩
      · rintro (⟨a, ha, heq, hp⟩ | ⟨hne, -⟩)
        · rcases List.mem_cons.mp ha with rfl | ha
          · exact .inr ⟨hfirst, hp⟩
          · exact absurd heq (hfirst a ha)
        · exact absurd hid (hne c List.mem_cons_self)
    · have hne : same id (Object.base c).id = false := by
        rw [Bool.eq_false_iff, Ne, same_iff_eq]
        exact fun heq => hid heq.symm
      simp [hid, hne]

/-- A database whose participants are known has the ids of those over RTPS. -/
theorem mem_getRtpsParticipantsIds {db : Participants} (h : ∀ id i, db.find id = some i ↔
    ∃ a ∈ l, (Object.base a).id = id ∧ participantOf a = i) (id : ParticipantId) :
    id ∈ db.getRtpsParticipantsIds ↔ ∃ a ∈ l, (Object.base a).id = id ∧ isRtpsKind (Object.base a).kind = true := by
  simp only [Participants.getRtpsParticipantsIds, List.mem_map, List.mem_filter, Prod.exists, exists_and_right,
    exists_eq_right]
  constructor
  · rintro ⟨i, hmem, hrtps⟩
    obtain ⟨a, ha, hid, rfl⟩ := (h id i).mp (OrdMap.find_of_mem hmem)
    exact ⟨a, ha, hid, by rwa [IParticipant.isRtpsKind, participantOf_kind] at hrtps⟩
  · rintro ⟨a, ha, hid, hrtps⟩
    obtain ⟨k, hk, hmem⟩ := OrdMap.mem_of_find ((h id _).mpr ⟨a, ha, hid, rfl⟩)
    rw [same_iff_eq.mp hk]
    exact ⟨participantOf a, hmem, by rwa [IParticipant.isRtpsKind, participantOf_kind]⟩

end Factory

/-! ### What the reader promises -/

section Reader

variable {env : Libraries} {version : YamlReaderVersion} {yml : Yaml}

theorem kind_of_getParticipantConfiguration {b : ParticipantConfiguration}
    (h : getParticipantConfiguration env version yml = .ok b) :
    getIn yml "kind" (getParticipantKind env version) = .ok b.kind := by
  obtain ⟨id, -, h⟩ := bind_eq_ok h
  obtain ⟨kind, hkind, h⟩ := bind_eq_ok h
  cases h
  exact hkind

theorem kind_of_getSimple {b : SimpleParticipantConfiguration}
    (h : getSimpleParticipantConfiguration env version yml = .ok b) :
    getIn yml "kind" (getParticipantKind env version) = .ok b.kind := by
  obtain ⟨base, hbase, h⟩ := bind_eq_ok h
  obtain ⟨domain, -, h⟩ := bind_eq_ok h
  cases h
  exact kind_of_getParticipantConfiguration hbase

/-- The kind that decides what is read is the kind of what is read. -/
theorem getParticipant_class {a : AnyParticipantConfiguration} (h : getParticipant env version yml = .ok a) :
    Object.checkCorrectConfigurationObject a = true := by
  obtain ⟨kind, hkind, h⟩ := bind_eq_ok h
  have hclass : getIn yml "kind" (getParticipantKind env version) = .ok (Object.base a).kind →
      Object.isA (Object.classOfKind kind) a = true → Object.checkCorrectConfigurationObject a = true := by
    intro hbase ha
    rw [hkind, Except.ok.injEq] at hbase
    rwa [Object.checkCorrectConfigurationObject, ← hbase]
  cases kind with
  | invalid =>
    obtain ⟨name, -, h⟩ := bind_eq_ok h
    cases h
  | blank | dummy =>
    obtain ⟨b, hb, h⟩ := bind_eq_ok h
    cases h
    exact hclass (kind_of_getParticipantConfiguration hb) rfl
  | echo =>
    obtain ⟨b, hb, h⟩ := bind_eq_ok h
    cases h
    obtain ⟨base, hbase, hb⟩ := bind_eq_ok hb
    obtain ⟨_, -, hb⟩ := bind_eq_ok hb
    obtain ⟨_, -, hb⟩ := bind_eq_ok hb
    obtain ⟨_, -, hb⟩ := bind_eq_ok hb
    cases hb
    exact hclass (kind_of_getParticipantConfiguration hbase) rfl
  | simpleRtps =>
    obtain ⟨b, hb, h⟩ := bind_eq_ok h
    cases h
    exact hclass (kind_of_getSimple hb) rfl
  | localDiscoveryServer | wanDiscoveryServer =>
    obtain ⟨b, hb, h⟩ := bind_eq_ok h
    cases h
    obtain ⟨base, hbase, hb⟩ := bind_eq_ok hb
    obtain ⟨_, -, hb⟩ := bind_eq_ok hb
    obtain ⟨_, -, hb⟩ := bind_eq_ok hb
    obtain ⟨_, -, hb⟩ := bind_eq_ok hb
    obtain ⟨_, -, hb⟩ := bind_eq_ok hb
    cases hb
    exact hclass (kind_of_getSimple hbase) rfl
  | wanInitialPeers =>
    obtain ⟨b, hb, h⟩ := bind_eq_ok h
    cases h
    obtain ⟨base, hbase, hb⟩ := bind_eq_ok hb
    obtain ⟨_, -, hb⟩ := bind_eq_ok hb
    obtain ⟨_, -, hb⟩ := bind_eq_ok hb
    obtain ⟨_, -, hb⟩ := bind_eq_ok hb
    obtain ⟨_, -, hb⟩ := bind_eq_ok hb
    cases hb
    have hk := kind_of_getSimple hbase
    exact hclass hk rfl

theorem getParticipantV1_class {entry : String × Yaml} {a : AnyParticipantConfiguration}
    (h : getParticipantV1 env entry = .ok a) : Object.checkCorrectConfigurationObject a = true := by
  unfold getParticipantV1 at h
  split at h
  · split at h
    · exact getParticipant_class h
    · cases h
  · cases h

theorem mem_mapM {α β : Type} {f : α → Reading β} {P : β → Prop} {l : List α} {bs : List β} (h : l.mapM f = .ok bs)
    (hf : ∀ a b, f a = .ok b → P b) : ∀ b ∈ bs, P b := by
  have hall := mapM_eq_ok_iff.mp h
  induction hall with
  | nil => simp
  | cons hab _ ih =>
    intro b hb
    rcases List.mem_cons.mp hb with rfl | hb
    · exact hf _ _ hab
    · exact ih (mapM_eq_ok_iff.mpr (by assumption)) b hb

/-- Whatever the version, every participant of a document is of the class of its kind. -/
theorem document_class {d : UInt32} {c : DDSRouterConfiguration}
    (h : getDDSRouterConfiguration env d version yml = .ok c) :
    ∀ a ∈ c.participantsConfigurations, Object.checkCorrectConfigurationObject a = true := by
  have hlatest : fillDdsrouterConfigurationLatest env d version yml = .ok c →
      ∀ a ∈ c.participantsConfigurations, Object.checkCorrectConfigurationObject a = true := by
    intro h
    obtain ⟨_, -, h⟩ := bind_eq_ok h
    obtain ⟨_, -, h⟩ := bind_eq_ok h
    obtain ⟨_, -, h⟩ := bind_eq_ok h
    obtain ⟨participants, hp, h⟩ := bind_eq_ok h
    obtain ⟨_, -, h⟩ := bind_eq_ok h
    cases h
    obtain ⟨value, -, hp⟩ := bind_eq_ok hp
    cases value with
    | sequence elements => exact mem_mapM hp fun _ _ => getParticipant_class
    | null | scalar | map => cases hp
  cases version with
  | v1_0 =>
    obtain ⟨_, -, h⟩ := bind_eq_ok h
    obtain ⟨_, -, h⟩ := bind_eq_ok h
    obtain ⟨participants, hp, h⟩ := bind_eq_ok h
    cases h
    exact mem_mapM hp fun _ _ => getParticipantV1_class
  | v2_0 => exact hlatest h
  | v3_0 => exact hlatest h

end Reader

/-! ### Pointers -/

section Pointers

variable {dds : FastDds} {pointerStr : DdsTopic → String} {p : Pointers} {c : DDSRouterConfiguration}

/-- The configuration, with each of its sets in the order of its pointers. -/
structure Pointers.Arranges (p : Pointers) (c : DDSRouterConfiguration) : Prop where
  allowlist : p.allowlist.Perm (c.allowlist.map some)
  blocklist : p.blocklist.Perm (c.blocklist.map some)
  builtinTopics : p.builtinTopics.Perm (c.builtinTopics.map some)
  participants : p.participantsConfigurations.Perm (c.participantsConfigurations.map some)
  advancedOptions : p.advancedOptions = c.advancedOptions

theorem arranges_pointersOf (c : DDSRouterConfiguration) : (pointersOf c).Arranges c :=
  ⟨.refl _, .refl _, .refl _, .refl _, rfl⟩

theorem Pointers.Arranges.objects (h : p.Arranges c) : p.objects.Perm c.participantsConfigurations := by
  have hperm := h.participants.filterMap id
  simpa [Pointers.objects, List.filterMap_map] using hperm

/-- The part that a reload takes. -/
def Pointers.toReloadConfiguration (p : Pointers) : Router.ReloadConfiguration :=
  { allowlist := p.allowlist.filterMap id, blocklist := p.blocklist.filterMap id
    builtinTopics := p.builtinTopics.filterMap id }

def idsOf (c : DDSRouterConfiguration) : List ParticipantId :=
  c.participantsConfigurations.map fun a => (Object.base a).id

theorem Pointers.Arranges.ids (h : p.Arranges c) : p.ids.Perm (idsOf c) := h.objects.map _

/-- The check says the same in any order. -/
theorem Pointers.Arranges.isValid_iff (h : p.Arranges c) :
    p.isValid dds pointerStr = true ↔
      c.toReloadConfiguration.isValid = true ∧ c.participantsConfigurations ≠ [] ∧
        (∀ a ∈ c.participantsConfigurations, Sound dds a) ∧ (idsOf c).Nodup := by
  have hreload : p.reloadError pointerStr = none ↔ c.toReloadConfiguration.isValid = true := by
    rw [← reloadError_pointersOf pointerStr]
    simp only [Pointers.reloadError, Option.orElse_eq_orElse, Option.orElse_eq_or, Option.or_eq_none_iff,
      List.findSome?_eq_none_iff, h.allowlist.any_eq, h.blocklist.any_eq, h.builtinTopics.mem_iff, pointersOf]
    exact Iff.rfl
  have hlength : p.participantsConfigurations.length = p.ids.length := by
    rw [h.participants.length_eq, h.ids.length_eq, idsOf, List.length_map, List.length_map]
  have hsome : p.participantsConfigurations.length < 1 ↔ c.participantsConfigurations = [] := by
    rw [h.participants.length_eq, List.length_map, Nat.lt_one_iff, List.length_eq_zero_iff]
  have hsize : (OrdMap.ofKeys p.ids).size ≠ p.ids.length ↔ ¬ (idsOf c).Nodup := by
    rw [← h.ids.nodup_iff]
    exact not_congr OrdMap.size_ofKeys_eq_iff
  simp only [Pointers.isValid, Option.isNone_iff_eq_none, Pointers.validityError, Option.orElse_eq_orElse,
    Option.orElse_eq_or, Option.or_eq_none_iff, List.findSome?_eq_none_iff, hreload, hlength]
  refine and_congr_right fun _ => and_congr ?_ (and_congr ?_ ?_)
  · rw [← hlength, Ne, ← hsome]
    split <;> simp_all
  · simp only [participantError_eq_none, h.participants.mem_iff, List.mem_map, forall_exists_index, and_imp,
      forall_apply_eq_imp_iff₂, Option.some.injEq, exists_eq_left']
    exact Iff.rfl
  · by_cases hn : (idsOf c).Nodup
    · simp [hsize, hn]
    · simp [hsize, hn]

end Pointers

/-! ### The constructor -/

section Constructor

open ParticipantFactory DDSRouterImpl

variable {dds : FastDds} {pointerStr : DdsTopic → String} {init : AnyParticipantConfiguration → Option String}
  {fuel : Nat} {p : Pointers} {c : DDSRouterConfiguration}

theorem sound_of_isValid (h : p.isValid dds pointerStr = true) : ∀ a ∈ p.objects, Sound dds a :=
  fun _ ha => (passed_of_isValid h).object ha

theorem objects_ne_nil (h : p.isValid dds pointerStr = true) : p.objects ≠ [] := by
  intro hnil
  have hpassed := passed_of_isValid h
  simp only [Pointers.isValid, Option.isNone_iff_eq_none, Pointers.validityError, Option.orElse_eq_orElse,
    Option.orElse_eq_or, Option.or_eq_none_iff] at h
  cases hp : p.participantsConfigurations with
  | nil => simp [hp] at h
  | cons x l =>
    obtain ⟨a, rfl, -⟩ := hpassed.participants x (by simp [hp])
    simp [Pointers.objects, hp] at hnil

/-- Everything that the constructor can do: the check fails, or all participants are made,
or one is the first that is not. -/
inductive Constructs (dds : FastDds) (pointerStr : DdsTopic → String)
    (init : AnyParticipantConfiguration → Option String) (fuel : Nat) (p : Pointers) :
    Outcome CreationException Participants → Prop where
  | invalid (message : String) (herror : p.validityError dds pointerStr = some message) :
    Constructs dds pointerStr init fuel p
      (throws (.configuration ("Configuration for DDS Router is invalid: " ++ message)))
  | made (hvalid : p.isValid dds pointerStr = true)
      (hall : ∀ c ∈ p.objects, createParticipant dds init fuel c = returns (participantOf c)) :
    Constructs dds pointerStr init fuel p (returns (filled OrdMap.empty p.objects))
  | endless (hvalid : p.isValid dds pointerStr = true) (before after : List AnyParticipantConfiguration)
      (a : AnyParticipantConfiguration) (hsplit : p.objects = before ++ a :: after)
      (hbefore : ∀ b ∈ before, createParticipant dds init fuel b = returns (participantOf b))
      (ha : createParticipant dds init fuel a = running) : Constructs dds pointerStr init fuel p running
  | failed (hvalid : p.isValid dds pointerStr = true) (before after : List AnyParticipantConfiguration)
      (a : AnyParticipantConfiguration) (hsplit : p.objects = before ++ a :: after)
      (hbefore : ∀ b ∈ before, createParticipant dds init fuel b = returns (participantOf b)) (e : CreationException)
      (ha : createParticipant dds init fuel a = throws e) : Constructs dds pointerStr init fuel p (throws e)

theorem construct_constructs (dds : FastDds) (pointerStr : DdsTopic → String)
    (init : AnyParticipantConfiguration → Option String) (fuel : Nat) (p : Pointers) :
    Constructs dds pointerStr init fuel p (construct dds pointerStr init fuel p) := by
  cases herror : p.validityError dds pointerStr with
  | some message =>
    have hthrows : construct dds pointerStr init fuel p =
        throws (.configuration ("Configuration for DDS Router is invalid: " ++ message)) := by
      simp [construct, create, herror]
    rw [hthrows]
    exact .invalid message herror
  | none =>
    have hvalid : p.isValid dds pointerStr = true := by simp [Pointers.isValid, herror]
    obtain ⟨impl, himpl⟩ := Process.create_eq_ok_iff.mpr hvalid
    have hconstruct : construct dds pointerStr init fuel p = initParticipants dds init fuel p := by
      rw [construct, himpl]
    have hnodup : (p.objects.map fun a => (Object.base a).id).Nodup := (passed_of_isValid hvalid).distinct
    have hsound := sound_of_isValid hvalid
    rw [hconstruct, initParticipants]
    rcases @foldlM_initParticipant dds init fuel p.objects OrdMap.empty hsound hnodup fun _ _ => rfl with
      ⟨hall, hloop⟩ | ⟨before, a, after, hsplit, hbefore, ⟨ha, hloop⟩ | ⟨e, ha, hloop⟩⟩
    · -- the database that results is not empty
      have hsize : ¬ (filled OrdMap.empty p.objects).size < 1 := by
        obtain ⟨a, l, hl⟩ := List.exists_cons_of_ne_nil (objects_ne_nil hvalid)
        have hfind := (find_filled hnodup OrdMap.empty (Object.base a).id (participantOf a)).mpr
          (.inl ⟨a, by simp [hl], rfl, rfl⟩)
        obtain ⟨k, -, hmem⟩ := OrdMap.mem_of_find hfind
        have hpos := List.length_pos_of_mem hmem
        rw [OrdMap.size]
        omega
      rw [hloop, returns_bind, if_neg hsize]
      exact .made hvalid hall
    · rw [hloop, running_bind]
      exact .endless hvalid before after a hsplit hbefore ha
    · rw [hloop, throws_bind]
      exact .failed hvalid before after a hsplit hbefore e ha

theorem construct_returns {db : Participants} (h : construct dds pointerStr init fuel p = returns db) :
    p.isValid dds pointerStr = true ∧ db = filled OrdMap.empty p.objects ∧
      ∀ c ∈ p.objects, createParticipant dds init fuel c = returns (participantOf c) := by
  have hcases := construct_constructs dds pointerStr init fuel p
  rw [h] at hcases
  cases hcases with
  | made hvalid hall => exact ⟨hvalid, rfl, hall⟩

theorem made_of_isValid (h : p.isValid dds pointerStr = true) {a : AnyParticipantConfiguration} (ha : a ∈ p.objects) :
    Made dds init a := made_of_sound (sound_of_isValid h a ha)

/-- The check passes, and before any participant fails there is one that looks for
transports for ever. -/
def Endless (dds : FastDds) (pointerStr : DdsTopic → String) (init : AnyParticipantConfiguration → Option String)
    (p : Pointers) : Prop :=
  p.isValid dds pointerStr = true ∧ ∃ before a after, p.objects = before ++ a :: after ∧
    (∀ b ∈ before, Listens dds b ∧ failure init b = none) ∧ ¬ Listens dds a

/-- Of two members of a list, one comes first. -/
theorem first_of_splits {α : Type} {before after before' after' : List α} {a a' : α}
    (h : before ++ a :: after = before' ++ a' :: after') : a ∈ before' ∨ a' ∈ before ∨ a = a' := by
  rcases List.append_eq_append_iff.mp h with ⟨between, rfl, heq⟩ | ⟨between, rfl, heq⟩
  · cases between with
    | nil => exact .inr (.inr (List.cons.inj heq).1)
    | cons x between =>
      cases heq
      exact .inl (by simp)
  · cases between with
    | nil => exact .inr (.inr (List.cons.inj heq).1.symm)
    | cons x between =>
      cases heq
      exact .inr (.inl (by simp))

theorem construct_running_iff :
    (∀ fuel, construct dds pointerStr init fuel p = running) ↔ Endless dds pointerStr init p := by
  constructor
  · intro hrunning
    have hcases := construct_constructs dds pointerStr init 1 p
    rw [hrunning 1] at hcases
    cases hcases with
    | endless hvalid before after a hsplit hbefore ha =>
      refine ⟨hvalid, before, a, after, hsplit, fun b hb => ?_, fun hl => ?_⟩
      · exact ((made_of_isValid hvalid (by simp [hsplit, hb])).of_returns (hbefore b hb)).2
      · have hmade : Made dds init a := made_of_isValid hvalid (by simp [hsplit])
        have hends := hmade.ends hl
        rw [ha, outcome] at hends
        split at hends <;> cases hends
  · rintro ⟨hvalid, before, a, after, hsplit, hbefore, hnot⟩ fuel
    have hmade : Made dds init a := made_of_isValid hvalid (by simp [hsplit])
    have ha := hmade.never hnot fuel
    have hcases := construct_constructs dds pointerStr init fuel p
    generalize construct dds pointerStr init fuel p = result at hcases ⊢
    cases hcases with
    | invalid message herror => simp [Pointers.isValid, herror] at hvalid
    | made hvalid hall =>
      rw [hall a (by simp [hsplit])] at ha
      cases ha
    | endless => rfl
    | failed hvalid before' after' a' hsplit' hbefore' e hthrows =>
      -- the participant that throws would come before the one that does not end
      obtain ⟨message, hfailure, -⟩ := (made_of_isValid hvalid (by simp [hsplit'])).of_throws hthrows
      rcases first_of_splits (hsplit.symm.trans hsplit') with hmem | hmem | rfl
      · rw [hbefore' a hmem] at ha
        cases ha
      · rw [(hbefore a' hmem).2] at hfailure
        cases hfailure
      · rw [ha] at hthrows
        cases hthrows

/-- Whatever the version of a document and the order of its pointers: the router is
constructed iff the builtin topics and the participants are valid, there is one, their
ids differ, their searches for transports end and Fast DDS makes those over RTPS. It
then has exactly the participants of the document. An exception is that of the check,
or that of Fast DDS, and without either the constructor never returns. -/
theorem document_constructed (init : AnyParticipantConfiguration → Option String) (pointerStr : DdsTopic → String)
    {env : Libraries} {version : YamlReaderVersion} {yml : Yaml} {d : UInt32}
    (hread : getDDSRouterConfiguration env d version yml = .ok c) (hp : p.Arranges c) :
    ((∃ fuel db, construct env.dds pointerStr init fuel p = returns db) ↔
      c.toReloadConfiguration.isValid = true ∧ c.participantsConfigurations ≠ [] ∧
        (∀ a ∈ c.participantsConfigurations,
          Object.validityError env.dds a = none ∧ Listens env.dds a ∧ failure init a = none) ∧
        (idsOf c).Nodup) ∧
    (∀ fuel db, construct env.dds pointerStr init fuel p = returns db →
      (∀ id i, db.find id = some i ↔
        ∃ a ∈ c.participantsConfigurations, (Object.base a).id = id ∧ participantOf a = i) ∧
      ∀ id, id ∈ db.getRtpsParticipantsIds ↔
        ∃ a ∈ c.participantsConfigurations, (Object.base a).id = id ∧ isRtpsKind (Object.base a).kind = true) ∧
    (∀ fuel e, construct env.dds pointerStr init fuel p = throws e →
      (∃ message, p.validityError env.dds pointerStr = some message ∧
        e = .configuration ("Configuration for DDS Router is invalid: " ++ message)) ∨
      ∃ a ∈ c.participantsConfigurations, ∃ message, failure init a = some message ∧ e = .initialization message) ∧
    ((∀ fuel, construct env.dds pointerStr init fuel p = running) ↔ Endless env.dds pointerStr init p) := by
  have hvalid : p.isValid env.dds pointerStr = true ↔ c.toReloadConfiguration.isValid = true ∧
      c.participantsConfigurations ≠ [] ∧
      (∀ a ∈ c.participantsConfigurations, Object.validityError env.dds a = none) ∧ (idsOf c).Nodup := by
    rw [hp.isValid_iff]
    refine and_congr_right fun _ => and_congr_right fun _ => and_congr_left fun _ => ?_
    exact ⟨fun h a ha => (h a ha).1, fun h a ha => ⟨h a ha, document_class hread a ha⟩⟩
  refine ⟨⟨?_, ?_⟩, fun fuel db hdb => ?_, fun fuel e he => ?_, construct_running_iff⟩
  · rintro ⟨fuel, db, hdb⟩
    obtain ⟨hv, -, hmade⟩ := construct_returns hdb
    obtain ⟨hreload, hsome, hall, hids⟩ := hvalid.mp hv
    refine ⟨hreload, hsome, fun a ha => ⟨hall a ha, ?_⟩, hids⟩
    have ha := hp.objects.mem_iff.mpr ha
    exact ((made_of_isValid hv ha).of_returns (hmade a ha)).2
  · rintro ⟨hreload, hsome, hall, hids⟩
    have hv := hvalid.mpr ⟨hreload, hsome, fun a ha => (hall a ha).1, hids⟩
    have hone : ∀ a ∈ p.objects, createParticipant env.dds init 1 a = returns (participantOf a) := by
      intro a ha
      obtain ⟨-, hl, hf⟩ := hall a (hp.objects.mem_iff.mp ha)
      exact (made_of_isValid hv ha).returns_one hl hf
    refine ⟨1, ?_⟩
    have hcases := construct_constructs env.dds pointerStr init 1 p
    generalize construct env.dds pointerStr init 1 p = result at hcases ⊢
    cases hcases with
    | invalid message herror => simp [Pointers.isValid, herror] at hv
    | made => exact ⟨_, rfl⟩
    | endless hv before after a hsplit hbefore ha | failed hv before after a hsplit hbefore e ha =>
      rw [hone a (by simp [hsplit])] at ha
      cases ha
  · obtain ⟨hv, rfl, -⟩ := construct_returns hdb
    have hfind : ∀ id i, (filled OrdMap.empty p.objects).find id = some i ↔
        ∃ a ∈ c.participantsConfigurations, (Object.base a).id = id ∧ participantOf a = i := by
      intro id i
      rw [find_filled (passed_of_isValid hv).distinct]
      simp only [hp.objects.mem_iff]
      exact or_iff_left fun h => by cases h.2
    exact ⟨hfind, fun id => mem_getRtpsParticipantsIds hfind id⟩
  · have hcases := construct_constructs env.dds pointerStr init fuel p
    rw [he] at hcases
    cases hcases with
    | invalid message herror => exact .inl ⟨message, herror, rfl⟩
    | failed hv before after a hsplit hbefore e ha =>
      have hmem : a ∈ p.objects := by simp [hsplit]
      obtain ⟨message, hmessage, rfl⟩ := (made_of_isValid hv hmem).of_throws ha
      exact .inr ⟨a, hp.objects.mem_iff.mp hmem, message, hmessage, rfl⟩

/-- An echo, and a participant over RTPS that listens on TCP addresses. -/
def echoAndWan (addresses : List (String × String)) : Yaml :=
  .map [("participants", .sequence
    [.map [("name", .scalar "e"), ("kind", .scalar "echo")],
      .map [("name", .scalar "w"), ("kind", .scalar "wan"),
        ("listening-addresses", .sequence (addresses.map fun a =>
          .map [("ip", .scalar a.1), ("port", .scalar a.2), ("transport", .scalar "tcp")]))]])]

/-- The pointer to the participant over RTPS is the lesser one. -/
def wanFirst (listening : AddressSet) : Pointers :=
  { participantsConfigurations :=
      [some (.initialPeers { id := ⟨"w"⟩, kind := .wanInitialPeers, listeningAddresses := listening }),
        some (.echo { id := ⟨"e"⟩, kind := .echo })] }

def echoAndWanRead (listening : AddressSet) : DDSRouterConfiguration :=
  { participantsConfigurations := (wanFirst listening).objects.reverse }

theorem wanFirst_arranges (listening : AddressSet) : (wanFirst listening).Arranges (echoAndWanRead listening) :=
  ⟨.refl _, .refl _, .refl _, (List.reverse_perm [_, _]).symm, rfl⟩

/-- With two ports of one address the router is constructed, with two addresses it never is. -/
theorem document_constructed_echoAndWan :
    (∃ fuel db, construct plainDds (fun _ => "") (fun _ => none) fuel (wanFirst twoPorts.listeningAddresses) =
        returns db ∧ ⟨"w"⟩ ∈ db.getRtpsParticipantsIds ∧ ⟨"e"⟩ ∉ db.getRtpsParticipantsIds) ∧
      ∀ fuel, construct plainDds (fun _ => "") (fun _ => none) fuel (wanFirst twoIps.listeningAddresses) = running := by
  have hports : getDDSRouterConfiguration { plainLibraries with dds := plainDds } initialHistoryDepth .v3_0
      (echoAndWan [("127.0.0.1", "11666"), ("127.0.0.1", "11667")]) =
        .ok (echoAndWanRead twoPorts.listeningAddresses) := rfl
  have hips : getDDSRouterConfiguration { plainLibraries with dds := plainDds } initialHistoryDepth .v3_0
      (echoAndWan [("127.0.0.1", "11666"), ("127.0.0.2", "11666")]) =
        .ok (echoAndWanRead twoIps.listeningAddresses) := rfl
  obtain ⟨hiff, hok, -, -⟩ := document_constructed (fun _ => none) (fun _ => "") hports (wanFirst_arranges _)
  obtain ⟨-, -, -, hendless⟩ := document_constructed (fun _ => none) (fun _ => "") hips (wanFirst_arranges _)
  constructor
  · have hlistens : ∀ a ∈ (echoAndWanRead twoPorts.listeningAddresses).participantsConfigurations,
        Object.validityError plainDds a = none ∧ Listens plainDds a ∧ failure (fun _ => none) a = none := by
      refine List.forall_mem_cons.mpr ⟨⟨rfl, trivial, rfl⟩, List.forall_mem_cons.mpr ⟨⟨by decide, ?_, rfl⟩, by simp⟩⟩
      exact ⟨by decide, lacks_cons.mpr ⟨lacks_of_nil _ _, fun h => absurd h (by decide)⟩⟩
    obtain ⟨fuel, db, hdb⟩ := hiff.mpr ⟨rfl, by decide, hlistens, by decide⟩
    have hrtps := (hok fuel db hdb).2
    exact ⟨fuel, db, hdb, (hrtps ⟨"w"⟩).mpr (by decide), fun h => absurd ((hrtps ⟨"e"⟩).mp h) (by decide)⟩
  · refine hendless.mpr ⟨by decide, [], _, _, rfl, by simp, fun hl => ?_⟩
    exact absurd (hl.1 (peerAt "127.0.0.2" .v4 .tcp) (by decide) (by decide)).2 (by decide)

end Constructor

end DDSRouter.Configuration
