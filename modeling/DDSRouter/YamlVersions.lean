import DDSRouter.YamlReader

/-!
# Two versions of the configuration format

A document of version 1.0 has its participants at the top level and takes the
builtin topics from the allowlist; a later one lists both under tags of their
own. The translation of the one into the other is read to the same configuration.
-/
namespace DDSRouter.Configuration

open Documents YamlReader

/-! ### The later document -/

/-- The tags that make up a guid prefix. -/
def isGuidTag (tag : String) : Bool := tag = "guid" || tag = "id" || tag = "ros-discovery-server"

/-- The entries of the guid prefix moved under a tag of their own. -/
def nestGuid (entries : List (String × Yaml)) : List (String × Yaml) :=
  assign "discovery-server-guid" (.map (entries.filter fun e => isGuidTag e.1))
    (entries.filter fun e => !isGuidTag e.1)

def upgradeConnection : Yaml → Yaml
  | .map entries => .map (nestGuid entries)
  | yml => yml

def upgradeConnections : Yaml → Yaml
  | .sequence elements => .sequence (elements.map upgradeConnection)
  | yml => yml

def upgradeEntry (tag : String) (value : Yaml) : Yaml :=
  if tag = "connection-addresses" then upgradeConnections value else value

/-- A block of a participant with the guids nested. -/
def upgradeBlock (block : List (String × Yaml)) : List (String × Yaml) :=
  nestGuid (block.map fun e => (e.1, upgradeEntry e.1 e.2))

/-- The block with its key as name and its type as kind. -/
def namedBlock (name : String) (block : List (String × Yaml)) : List (String × Yaml) :=
  assign "kind" ((block.lookup "type").getD .null) (assign "name" (.scalar name) block)

def upgradeParticipant (entry : String × Yaml) : Yaml :=
  match entry.2 with
  | .map block => .map (upgradeBlock (namedBlock entry.1 block))
  | yml => yml

def allowlistEntries (entries : List (String × Yaml)) : List Yaml :=
  match entries.lookup "allowlist" with
  | some (.sequence elements) => elements
  | _ => []

/-- An entry of the allowlist that names one valid topic. -/
def namesTopic (yml : Yaml) : Bool :=
  match yml.find "name", yml.find "type" with
  | some (.scalar name), some (.scalar type) => isValidDdsTopic name type
  | _, _ => false

def isListTag (tag : String) : Bool := tag = "allowlist" || tag = "blocklist"

/-- The entries of the document of a later version for those of version 1.0. -/
def upgrade (entries : List (String × Yaml)) : List (String × Yaml) :=
  (entries.filter fun e => isListTag e.1) ++
    [("builtin-topics", .sequence ((allowlistEntries entries).filter namesTopic)),
      ("participants", .sequence ((entries.filter fun e => !isTag e.1).map upgradeParticipant))]

/-! ### Reading entries -/

theorem isTagPresent_map (l : List (String × Yaml)) (tag : String) :
    isTagPresent (.map l) tag = .ok (l.lookup tag).isSome := rfl

/-- What is found is what is got. -/
theorem getValueInTag_eq_ok_iff {yml value : Yaml} {tag : String} :
    getValueInTag yml tag = .ok value ↔ yml.find tag = some value := by
  cases yml with
  | null => constructor <;> (intro h; cases h)
  | scalar text => constructor <;> (intro h; cases h)
  | sequence elements => constructor <;> (intro h; cases h)
  | map l =>
    simp only [getValueInTag, Node.find]
    cases l.lookup tag with
    | none => constructor <;> (intro h; cases h)
    | some v => exact ⟨fun h => congrArg some (Except.ok.inj h), fun h => congrArg Except.ok (Option.some.inj h)⟩

theorem getValueInTag_of_lookup {l : List (String × Yaml)} {tag : String} {value : Yaml}
    (h : l.lookup tag = some value) : getValueInTag (.map l) tag = .ok value :=
  getValueInTag_eq_ok_iff.mpr h

theorem getValueInTag_congr {l l' : List (String × Yaml)} {tag : String} (h : l.lookup tag = l'.lookup tag) :
    getValueInTag (.map l) tag = getValueInTag (.map l') tag := by
  simp only [getValueInTag, Node.find, h]

theorem getIn_congr {α : Type} {l l' : List (String × Yaml)} {tag : String} (h : l.lookup tag = l'.lookup tag)
    (get : Yaml → Reading α) : getIn (.map l) tag get = getIn (.map l') tag get := by
  rw [getIn, getIn, getValueInTag_congr h]

theorem ifPresent_congr {α : Type} {l l' : List (String × Yaml)} {tag : String} (h : l.lookup tag = l'.lookup tag)
    (get : Reading α) : ifPresent (.map l) tag get = ifPresent (.map l') tag get := by
  rw [ifPresent, ifPresent, isTagPresent_map, isTagPresent_map, h]

theorem lookup_nestGuid (l : List (String × Yaml)) (tag : String) :
    (nestGuid l).lookup tag =
      if tag = "discovery-server-guid" then some (.map (l.filter fun e => isGuidTag e.1))
      else if isGuidTag tag then none else l.lookup tag := by
  rw [nestGuid, lookup_assign, lookup_filter_key (fun k => !isGuidTag k)]
  cases isGuidTag tag <;> rfl

/-- The guid prefix reads its own tags only. -/
theorem getGuidPrefix_filter (env : Libraries) (l : List (String × Yaml)) :
    getGuidPrefix env (.map (l.filter fun e => isGuidTag e.1)) = getGuidPrefix env (.map l) := by
  have hkept : ∀ tag, isGuidTag tag = true → (l.filter fun e => isGuidTag e.1).lookup tag = l.lookup tag := by
    intro tag htag
    rw [lookup_filter_key isGuidTag, if_pos htag]
  have hguid := hkept "guid" (by decide)
  have hros := hkept "ros-discovery-server" (by decide)
  have hid := hkept "id" (by decide)
  simp only [getGuidPrefix, isTagPresent_map, hguid, getIn_congr hguid, ifPresent_congr hros, getIn_congr hros,
    getIn_congr hid]

/-- Where the later document has the guid prefix. -/
theorem agree_getServerGuidPrefix (env : Libraries) {l l' : List (String × Yaml)}
    (h : l'.lookup "discovery-server-guid" = some (.map (l.filter fun e => isGuidTag e.1))) :
    Agree Eq (getServerGuidPrefix env .v1_0 (.map l)) (getServerGuidPrefix env .v2_0 (.map l')) := by
  simp only [getServerGuidPrefix, getIn, getValueInTag_of_lookup h]
  apply Agree.mapError_right
  exact Agree.of_eq (getGuidPrefix_filter env l).symm

/-- One connection address, of any shape. -/
theorem agree_connection (env : Libraries) (yml : Yaml) :
    Agree Eq (getDiscoveryServerConnectionAddress env .v1_0 yml)
      (getDiscoveryServerConnectionAddress env .v2_0 (upgradeConnection yml)) := by
  cases yml with
  | null => trivial
  | scalar text => trivial
  | sequence elements => trivial
  | map l =>
    have hguid : (nestGuid l).lookup "discovery-server-guid" = some (.map (l.filter fun e => isGuidTag e.1)) := by
      rw [lookup_nestGuid, if_pos rfl]
    have haddresses : l.lookup "addresses" = (nestGuid l).lookup "addresses" := by
      rw [lookup_nestGuid]
      rfl
    apply Agree.bind (agree_getServerGuidPrefix env hguid)
    rintro guid _ rfl
    simp only [getSet, getIn_congr haddresses]
    exact Agree.of_eq rfl

theorem agree_connections (env : Libraries) (yml : Yaml) :
    Agree Eq (getList (getDiscoveryServerConnectionAddress env .v1_0) yml)
      (getList (getDiscoveryServerConnectionAddress env .v2_0) (upgradeConnections yml)) := by
  cases yml with
  | null => trivial
  | scalar text => trivial
  | map l => trivial
  | sequence elements =>
    apply Agree.mapError
    exact Agree.mapM_map fun c _ => agree_connection env c

/-! ### Participants -/

/-- A tag that the translation of a block leaves alone. -/
def isKept (tag : String) : Bool :=
  !isGuidTag tag && tag ≠ "discovery-server-guid" && tag ≠ "connection-addresses"

theorem lookup_upgradeBlock (l : List (String × Yaml)) {tag : String} (h : isKept tag = true) :
    (upgradeBlock l).lookup tag = l.lookup tag := by
  simp only [isKept, Bool.and_eq_true, Bool.not_eq_true', decide_eq_true_eq] at h
  obtain ⟨⟨hguid, hnest⟩, hconn⟩ := h
  rw [upgradeBlock, lookup_nestGuid, if_neg hnest, hguid, if_neg Bool.false_ne_true, lookup_map_value upgradeEntry]
  have hentry : upgradeEntry tag = id := by
    funext value
    rw [upgradeEntry, if_neg hconn, id]
  rw [hentry, Option.map_id, id]

/-- The guid prefix of a block, with the connection addresses changed or not. -/
theorem filter_upgradeEntry (l : List (String × Yaml)) :
    ((l.map fun e => (e.1, upgradeEntry e.1 e.2)).filter fun e => isGuidTag e.1) =
      l.filter fun e => isGuidTag e.1 := by
  induction l with
  | nil => rfl
  | cons e l ih =>
    rw [List.map_cons, List.filter_cons, List.filter_cons, ih]
    by_cases hg : isGuidTag e.1 = true
    · have hne : ¬e.1 = "connection-addresses" := by
        intro h
        rw [h] at hg
        exact absurd hg (by decide)
      simp only [hg, if_true, upgradeEntry, if_neg hne]
    · simp [hg]

section Kept

variable (env : Libraries) (l : List (String × Yaml))

@[simp] theorem getValueInTag_upgradeBlock {tag : String} (h : isKept tag = true) :
    getValueInTag (.map (upgradeBlock l)) tag = getValueInTag (.map l) tag :=
  getValueInTag_congr (lookup_upgradeBlock l h)

@[simp] theorem getIn_upgradeBlock {α : Type} {tag : String} (h : isKept tag = true) (get : Yaml → Reading α) :
    getIn (.map (upgradeBlock l)) tag get = getIn (.map l) tag get :=
  getIn_congr (lookup_upgradeBlock l h) get

@[simp] theorem ifPresent_upgradeBlock {α : Type} {tag : String} (h : isKept tag = true) (get : Reading α) :
    ifPresent (.map (upgradeBlock l)) tag get = ifPresent (.map l) tag get :=
  ifPresent_congr (lookup_upgradeBlock l h) get

/-- The two versions have the same kinds. -/
theorem getParticipantKind_v2 : getParticipantKind env .v2_0 = getParticipantKind env .v1_0 := rfl

theorem getParticipantConfiguration_upgradeBlock :
    getParticipantConfiguration env .v2_0 (.map (upgradeBlock l)) =
      getParticipantConfiguration env .v1_0 (.map l) := by
  simp (disch := decide) only [getParticipantConfiguration, getIn_upgradeBlock, getParticipantKind_v2]

theorem getEchoParticipantConfiguration_upgradeBlock :
    getEchoParticipantConfiguration env .v2_0 (.map (upgradeBlock l)) =
      getEchoParticipantConfiguration env .v1_0 (.map l) := by
  simp (disch := decide) only [getEchoParticipantConfiguration, getParticipantConfiguration_upgradeBlock,
    ifPresent_upgradeBlock, getIn_upgradeBlock]

theorem getSimpleParticipantConfiguration_upgradeBlock :
    getSimpleParticipantConfiguration env .v2_0 (.map (upgradeBlock l)) =
      getSimpleParticipantConfiguration env .v1_0 (.map l) := by
  simp (disch := decide) only [getSimpleParticipantConfiguration, getParticipantConfiguration_upgradeBlock,
    ifPresent_upgradeBlock, getIn_upgradeBlock]

theorem getAddresses_upgradeBlock {tag : String} (h : isKept tag = true) :
    getAddresses env (.map (upgradeBlock l)) tag = getAddresses env (.map l) tag := by
  simp only [getAddresses, getSet, ifPresent_upgradeBlock l h, getIn_upgradeBlock l h]

theorem getTls_upgradeBlock : getTls env (.map (upgradeBlock l)) = getTls env (.map l) := by
  simp (disch := decide) only [getTls, ifPresent_upgradeBlock, getValueInTag_upgradeBlock]

end Kept

/-- A required value that was translated, read by readers that agree on it. -/
theorem agree_getIn {α : Type} {l l' : List (String × Yaml)} {tag : String} {f : Yaml → Yaml}
    {get get' : Yaml → Reading α} (hl : l'.lookup tag = (l.lookup tag).map f)
    (h : ∀ yml, Agree Eq (get yml) (get' (f yml))) : Agree Eq (getIn (.map l) tag get) (getIn (.map l') tag get') := by
  apply Agree.mapError
  simp only [getValueInTag, Node.find, hl]
  cases l.lookup tag with
  | none => trivial
  | some yml => exact h yml

theorem agree_ifPresent {α : Type} {l l' : List (String × Yaml)} {tag : String} {get get' : Reading α}
    (hl : (l'.lookup tag).isSome = (l.lookup tag).isSome) (h : Agree Eq get get') :
    Agree Eq (ifPresent (.map l) tag get) (ifPresent (.map l') tag get') := by
  simp only [ifPresent, isTagPresent_map, hl]
  cases (l.lookup tag).isSome with
  | false => exact Agree.of_eq rfl
  | true => exact Agree.bind_same h _

theorem agree_getServerConnections (env : Libraries) (l : List (String × Yaml)) :
    Agree Eq (getServerConnections env .v1_0 (.map l)) (getServerConnections env .v2_0 (.map (upgradeBlock l))) := by
  have hlookup : (upgradeBlock l).lookup "connection-addresses" =
      (l.lookup "connection-addresses").map upgradeConnections := by
    rw [upgradeBlock, lookup_nestGuid, lookup_map_value upgradeEntry]
    rfl
  have hset : Agree Eq
      (getSet (getDiscoveryServerConnectionAddress env .v1_0) (.map l) "connection-addresses")
      (getSet (getDiscoveryServerConnectionAddress env .v2_0) (.map (upgradeBlock l)) "connection-addresses") :=
    Agree.bind_same (agree_getIn hlookup (agree_connections env)) _
  apply Agree.bind_same (agree_ifPresent _ hset)
  rw [hlookup, Option.isSome_map]

theorem agree_discoveryServer (env : Libraries) (l : List (String × Yaml)) :
    Agree Eq (getDiscoveryServerParticipantConfiguration env .v1_0 (.map l))
      (getDiscoveryServerParticipantConfiguration env .v2_0 (.map (upgradeBlock l))) := by
  have hguid : (upgradeBlock l).lookup "discovery-server-guid" = some (.map (l.filter fun e => isGuidTag e.1)) := by
    rw [upgradeBlock, lookup_nestGuid, if_pos rfl, filter_upgradeEntry]
  simp only [getDiscoveryServerParticipantConfiguration, getSimpleParticipantConfiguration_upgradeBlock,
    getAddresses_upgradeBlock env l (by decide : isKept "listening-addresses" = true), getTls_upgradeBlock]
  apply Agree.bind (Agree.of_eq rfl)
  rintro base _ rfl
  apply Agree.bind (Agree.of_eq rfl)
  rintro listening _ rfl
  apply Agree.bind (agree_getServerConnections env l)
  rintro connection _ rfl
  apply Agree.bind (Agree.of_eq rfl)
  rintro tls _ rfl
  exact Agree.bind_same (agree_getServerGuidPrefix env hguid) _

/-- Initial peers are not told apart from a discovery server before version 3.0. -/
theorem ne_wanInitialPeers {env : Libraries} {yml : Yaml} {kind : ParticipantKind}
    (h : getParticipantKind env .v1_0 yml = .ok kind) : kind ≠ .wanInitialPeers := by
  obtain ⟨name, -, h⟩ := bind_eq_ok h
  rintro rfl
  by_cases hk : participantKindFromName env name = .wanInitialPeers
  · simp [hk, pure, Except.pure] at h
  · simp [hk, pure, Except.pure] at h

/-- Every block of a participant, whatever its kind. -/
theorem agree_getParticipant (env : Libraries) (l : List (String × Yaml)) :
    Agree Eq (getParticipant env .v1_0 (.map l)) (getParticipant env .v2_0 (.map (upgradeBlock l))) := by
  have hkind : ∀ {α : Type} (get : Yaml → Reading α),
      getIn (.map (upgradeBlock l)) "kind" get = getIn (.map l) "kind" get :=
    fun get => getIn_upgradeBlock l (by decide) get
  simp only [getParticipant, hkind, getParticipantKind_v2]
  have hread : Agree (fun a b => a = b ∧ a ≠ .wanInitialPeers)
      (getIn (.map l) "kind" (getParticipantKind env .v1_0)) (getIn (.map l) "kind" (getParticipantKind env .v1_0)) := by
    apply Agree.of_ok
    intro kind h
    obtain ⟨value, -, hvalue⟩ := bind_eq_ok (mapError_eq_ok h)
    exact ⟨rfl, ne_wanInitialPeers hvalue⟩
  apply Agree.bind hread
  rintro kind _ ⟨rfl, hne⟩
  cases kind with
  | invalid => exact Agree.of_eq rfl
  | blank => exact Agree.of_eq (by rw [getParticipantConfiguration_upgradeBlock])
  | dummy => exact Agree.of_eq (by rw [getParticipantConfiguration_upgradeBlock])
  | echo => exact Agree.of_eq (by rw [getEchoParticipantConfiguration_upgradeBlock])
  | simpleRtps => exact Agree.of_eq (by rw [getSimpleParticipantConfiguration_upgradeBlock])
  | localDiscoveryServer => exact Agree.bind_same (agree_discoveryServer env l) _
  | wanDiscoveryServer => exact Agree.bind_same (agree_discoveryServer env l) _
  | wanInitialPeers => exact absurd rfl hne

/-! ### The whole document -/

/-- A map with a type. -/
def hasType : Yaml → Bool
  | .map block => (block.lookup "type").isSome
  | _ => false

/-- Every participant of the document is a map with a type. -/
def BlocksHaveType (entries : List (String × Yaml)) : Prop :=
  ∀ e ∈ entries, isTag e.1 = false → hasType e.2 = true

instance (entries : List (String × Yaml)) : Decidable (BlocksHaveType entries) :=
  inferInstanceAs (Decidable (∀ e ∈ entries, isTag e.1 = false → hasType e.2 = true))

theorem agree_participant (env : Libraries) {e : String × Yaml} (h : hasType e.2 = true) :
    Agree Eq (getParticipantV1 env e) (getParticipant env .v2_0 (upgradeParticipant e)) := by
  obtain ⟨name, yml⟩ := e
  cases yml with
  | null => cases h
  | scalar text => cases h
  | sequence elements => cases h
  | map block =>
    obtain ⟨kind, hkind⟩ := Option.isSome_iff_exists.mp h
    have hv1 : getParticipantV1 env (name, .map block) = getParticipant env .v1_0 (.map (namedBlock name block)) := by
      simp only [getParticipantV1, hkind, namedBlock, Option.getD_some]
    rw [hv1]
    exact agree_getParticipant env _

theorem agree_participants (env : Libraries) {l : List (String × Yaml)} (h : ∀ e ∈ l, hasType e.2 = true) :
    Agree Eq (l.mapM (getParticipantV1 env)) ((l.map upgradeParticipant).mapM (getParticipant env .v2_0)) :=
  Agree.mapM_map fun e he => agree_participant env (h e he)

section Whole

variable (env : Libraries) (entries : List (String × Yaml))

theorem lookup_upgrade (tag : String) :
    (upgrade entries).lookup tag = (if isListTag tag then entries.lookup tag else none).or
      (if tag = "builtin-topics" then some (.sequence ((allowlistEntries entries).filter namesTopic))
        else if tag = "participants" then
          some (.sequence ((entries.filter fun e => !isTag e.1).map upgradeParticipant))
        else none) := by
  rw [upgrade, List.lookup_append, lookup_filter_key isListTag, lookup_cons_eq, lookup_cons_eq, List.lookup_nil]

/-- The lists are kept as they are. -/
theorem getAllFilters_upgrade {tag : String} (h : tag = "allowlist" ∨ tag = "blocklist") :
    getAllFilters env (.map (upgrade entries)) tag = getAllFilters env (.map entries) tag := by
  have hlookup : (upgrade entries).lookup tag = entries.lookup tag := by
    rcases h with rfl | rfl
    · rw [lookup_upgrade]
      exact Option.or_none
    · rw [lookup_upgrade]
      exact Option.or_none
  simp only [getAllFilters, getFilters, getSet, ifPresent_congr hlookup, getIn_congr hlookup]

theorem getParticipants_upgrade :
    getParticipants env .v2_0 (.map (upgrade entries)) =
      ((entries.filter fun e => !isTag e.1).map upgradeParticipant).mapM (getParticipant env .v2_0) := by
  have hlookup := lookup_upgrade entries "participants"
  simp only [getParticipants, getValueInTag, Node.find, hlookup]
  rfl

/-- Advanced options are not part of version 1.0. -/
theorem specs_upgrade {α : Type} (get : Reading α) : ifPresent (.map (upgrade entries)) "specs" get = .ok none := by
  have hlookup : (upgrade entries).lookup "specs" = none := by
    rw [lookup_upgrade]
    rfl
  rw [ifPresent, isTagPresent_map, hlookup]
  rfl

theorem lookup_builtin : (upgrade entries).lookup "builtin-topics" =
    some (.sequence ((allowlistEntries entries).filter namesTopic)) := by
  rw [lookup_upgrade]
  rfl

end Whole

theorem ifPresent_of_lookup {α : Type} {l : List (String × Yaml)} {tag : String} {yml : Yaml}
    (h : l.lookup tag = some yml) (get : Reading α) : ifPresent (.map l) tag get = (do return some (← get)) := by
  rw [ifPresent, isTagPresent_map, h]
  rfl

theorem getSet_eq_ok_iff {α : Type} [WeakOrder α] {get : Yaml → Reading α} {yml : Yaml} {tag : String}
    {m : OrdMap α Unit} :
    getSet get yml tag = .ok m ↔
      ∃ elements as, yml.find tag = some (.sequence elements) ∧ elements.mapM get = .ok as ∧ m = OrdMap.ofKeys as := by
  constructor
  · intro h
    obtain ⟨as, has, h⟩ := bind_eq_ok h
    obtain ⟨value, hvalue, has⟩ := bind_eq_ok (mapError_eq_ok has)
    have hfind : yml.find tag = some value := getValueInTag_eq_ok_iff.mp hvalue
    cases value with
    | null => cases has
    | scalar text => cases has
    | map entries => cases has
    | sequence elements => exact ⟨elements, as, hfind, mapError_eq_ok has, (Except.ok.inj h).symm⟩
  · rintro ⟨elements, as, hfind, has, rfl⟩
    simp only [getSet, getIn, getValueInTag_eq_ok_iff.mpr hfind, bind, Except.bind, getList, has]
    rfl

theorem ifPresent_eq_ok {α : Type} {yml : Yaml} {tag : String} {get : Reading α} {o : Option α}
    (h : ifPresent yml tag get = .ok o) :
    (yml.find tag = none ∧ o = none) ∨ ((yml.find tag).isSome = true ∧ ∃ a, get = .ok a ∧ o = some a) := by
  obtain ⟨b, hb, h⟩ := bind_eq_ok h
  have hfind : b = (yml.find tag).isSome := by
    cases yml with
    | null => exact (Except.ok.inj hb).symm
    | map l => exact (Except.ok.inj hb).symm
    | scalar text => cases hb
    | sequence elements => cases hb
  cases b with
  | false => exact .inl ⟨Option.isSome_eq_false_iff.mp hfind.symm |> Option.isNone_iff_eq_none.mp, (Except.ok.inj h).symm⟩
  | true =>
    obtain ⟨a, ha, h⟩ := bind_eq_ok h
    exact .inr ⟨hfind.symm, a, ha, (Except.ok.inj h).symm⟩

/-- A required text. -/
theorem getIn_getString_eq_ok {yml : Yaml} {tag text : String} (h : getIn yml tag getString = .ok text) :
    yml.find tag = some (.scalar text) := by
  obtain ⟨value, hvalue, h⟩ := bind_eq_ok (mapError_eq_ok h)
  have hfind := getValueInTag_eq_ok_iff.mp hvalue
  cases value with
  | null => cases h
  | sequence elements => cases h
  | map l => cases h
  | scalar s =>
    cases h
    exact hfind

/-! ### Builtin topics -/

section Builtin

variable {env : Libraries} {d : UInt32}

/-- A filter stands for the topic that its entry names. -/
theorem namesTopic_eq {yml : Yaml} {f : WildcardDdsFilterTopic} (h : getWildcardDdsFilterTopic env yml = .ok f) :
    namesTopic yml = isValidDdsTopic f.topicName f.typeName.value := by
  obtain ⟨name, hname, h⟩ := bind_eq_ok h
  obtain ⟨type, htype, h⟩ := bind_eq_ok h
  obtain ⟨keyed, -, h⟩ := bind_eq_ok h
  cases Except.ok.inj h
  rcases ifPresent_eq_ok htype with ⟨hnone, rfl⟩ | ⟨-, text, htext, rfl⟩
  · have hempty : isValidDdsTopic name "" = false := by
      simp only [isValidDdsTopic, DdsTopic.isValid, DdsTopic.validityError]
      split <;> rfl
    simp only [namesTopic, getIn_getString_eq_ok hname, hnone, fuzzyOf, hempty]
  · simp only [namesTopic, getIn_getString_eq_ok hname, getIn_getString_eq_ok htext, fuzzyOf]

/-- The QoS of an entry, if any, is one that is read for a topic. -/
def QosAccepted (env : Libraries) (d : UInt32) (yml : Yaml) : Prop :=
  ∀ qos, yml.find "qos" = some qos → ∃ q, fillTopicQoS env (defaultTopicQoS d) qos = .ok q

theorem getQos_map (l : List (String × Yaml)) :
    ifPresent (.map l) "qos" (getValueInTag (.map l) "qos" >>= fillTopicQoS env (defaultTopicQoS d)) =
      match l.lookup "qos" with
      | none => .ok none
      | some qos => (do return some (← fillTopicQoS env (defaultTopicQoS d) qos)) := by
  simp only [ifPresent, isTagPresent_map, getValueInTag, Node.find]
  cases l.lookup "qos" with
  | none => rfl
  | some qos => rfl

theorem qosAccepted_of_getDdsTopic {yml : Yaml} {t : DdsTopic} (h : getDdsTopic env d yml = .ok t) :
    QosAccepted env d yml := by
  obtain ⟨name, -, h⟩ := bind_eq_ok h
  obtain ⟨type, -, h⟩ := bind_eq_ok h
  obtain ⟨keyed, -, h⟩ := bind_eq_ok h
  obtain ⟨qos, hqos, -⟩ := bind_eq_ok h
  intro q hq
  cases yml with
  | null => cases hq
  | scalar text => cases hq
  | sequence elements => cases hq
  | map l =>
    rw [Node.find] at hq
    rw [getQos_map, hq] at hqos
    obtain ⟨r, hr, -⟩ := bind_eq_ok hqos
    exact ⟨r, hr⟩

/-- An entry that names a topic is read to that topic. -/
theorem getDdsTopic_of_filter {yml : Yaml} {f : WildcardDdsFilterTopic} (h : getWildcardDdsFilterTopic env yml = .ok f)
    (hn : namesTopic yml = true) (hqos : QosAccepted env d yml) :
    ∃ t, getDdsTopic env d yml = .ok t ∧ t.topicName = f.topicName ∧ t.typeName = f.typeName.value := by
  obtain ⟨name, hname, h⟩ := bind_eq_ok h
  obtain ⟨type, htype, h⟩ := bind_eq_ok h
  obtain ⟨keyed, hkeyed, h⟩ := bind_eq_ok h
  cases Except.ok.inj h
  rcases ifPresent_eq_ok htype with ⟨hnone, -⟩ | ⟨-, text, htext, rfl⟩
  · simp [namesTopic, getIn_getString_eq_ok hname, hnone] at hn
  · have hread : ∃ q, ifPresent yml "qos" (getValueInTag yml "qos" >>= fillTopicQoS env (defaultTopicQoS d)) = .ok q := by
      cases yml with
      | null => cases hname
      | scalar text => cases hname
      | sequence elements => cases hname
      | map l =>
        rw [getQos_map]
        cases hq : l.lookup "qos" with
        | none => exact ⟨none, rfl⟩
        | some qos =>
          obtain ⟨r, hr⟩ := hqos qos hq
          simp only [hr]
          exact ⟨some r, rfl⟩
    obtain ⟨q, hq⟩ := hread
    refine ⟨{ topicName := name, typeName := text, keyed := keyed.getD false, topicQos := q.getD (defaultTopicQoS d) },
      ?_, rfl, rfl⟩
    rw [getDdsTopic, hname, htext, hkeyed, hq]
    rfl

theorem text_of_same {u : FuzzyUtils} {f g : WildcardDdsFilterTopic}
    (h : @WeakOrder.same _ (filterOrder u) f g = true) : g.text u = f.text u := by
  let _ := filterOrder u
  obtain ⟨hfg, hgf⟩ := WeakOrder.same_iff.mp h
  simp only [WeakOrder.lt, decide_eq_false_iff_not, not_lt] at hfg hgf
  exact OrderDual.toDual.injective (le_antisymm hfg hgf)

/-- The filters of the allowlist, of which those that print alike are one. -/
theorem getAllFilters_allowlist {entries : List (String × Yaml)} {fs : List WildcardDdsFilterTopic}
    (h : getAllFilters env (.map entries) "allowlist" = .ok fs) :
    ∃ gs, (allowlistEntries entries).mapM (getWildcardDdsFilterTopic env) = .ok gs ∧ (∀ f ∈ fs, f ∈ gs) ∧
      ∀ g ∈ gs, ∃ f ∈ fs, f.text env.fuzzy = g.text env.fuzzy := by
  obtain ⟨o, ho, h⟩ := bind_eq_ok h
  cases Except.ok.inj h
  rcases ifPresent_eq_ok ho with ⟨hnone, rfl⟩ | ⟨-, ks, hks, rfl⟩
  · rw [Node.find] at hnone
    refine ⟨[], ?_, by simp, by simp⟩
    rw [allowlistEntries, hnone]
    rfl
  · let _ := filterOrder env.fuzzy
    obtain ⟨m, hm, h⟩ := bind_eq_ok hks
    cases Except.ok.inj h
    obtain ⟨elements, gs, hfind, hgs, rfl⟩ := getSet_eq_ok_iff.mp hm
    rw [Node.find] at hfind
    refine ⟨gs, ?_, fun f hf => OrdMap.mem_of_mem_ofKeys hf, ?_⟩
    · rw [allowlistEntries, hfind]
      exact hgs
    · intro g hg
      obtain ⟨f, hf, hsame⟩ := OrdMap.exists_same_ofKeys hg
      exact ⟨f, hf, text_of_same hsame⟩

/-- The same topics, as `DdsTopic::operator ==` tells them apart. -/
def SameTopics (l m : List DdsTopic) : Prop :=
  (∀ t ∈ l, ∃ t' ∈ m, t.equal t' = true) ∧ ∀ t' ∈ m, ∃ t ∈ l, t.equal t' = true

instance (l m : List DdsTopic) : Decidable (SameTopics l m) :=
  inferInstanceAs (Decidable ((∀ t ∈ l, ∃ t' ∈ m, t.equal t' = true) ∧ ∀ t' ∈ m, ∃ t ∈ l, t.equal t' = true))

/-- Of entries that print alike, one that names a topic shares name and type with the others. -/
def PrintedApart (env : Libraries) (entries : List (String × Yaml)) : Prop :=
  ∀ x ∈ allowlistEntries entries, ∀ y ∈ allowlistEntries entries, ∀ f g,
    getWildcardDdsFilterTopic env x = .ok f → getWildcardDdsFilterTopic env y = .ok g →
    f.text env.fuzzy = g.text env.fuzzy → namesTopic y = true →
    f.topicName = g.topicName ∧ f.typeName.value = g.typeName.value

/-- Every entry listed as builtin topic has a QoS that is accepted. -/
def AllQosAccepted (env : Libraries) (d : UInt32) (entries : List (String × Yaml)) : Prop :=
  ∀ y ∈ allowlistEntries entries, namesTopic y = true → QosAccepted env d y

variable (env d) in
theorem builtinOfFilter_eq_some {f : WildcardDdsFilterTopic} (h : isValidDdsTopic f.topicName f.typeName.value = true) :
    ∃ t, builtinOfFilter env d f = some t ∧ t.topicName = f.topicName ∧ t.typeName = f.typeName.value := by
  rw [builtinOfFilter, if_pos h]
  exact ⟨_, rfl, rfl, rfl⟩

theorem of_builtinOfFilter {f : WildcardDdsFilterTopic} {t : DdsTopic} (h : builtinOfFilter env d f = some t) :
    isValidDdsTopic f.topicName f.typeName.value = true ∧ t.topicName = f.topicName ∧
      t.typeName = f.typeName.value := by
  rw [builtinOfFilter] at h
  split at h
  · next hv =>
    cases h
    exact ⟨hv, rfl, rfl⟩
  · cases h

/-- The builtin topics of the two documents. -/
theorem sameTopics_builtin {entries : List (String × Yaml)} {fs : List WildcardDdsFilterTopic} {ts : List DdsTopic}
    (hfs : getAllFilters env (.map entries) "allowlist" = .ok fs)
    (hts : ((allowlistEntries entries).filter namesTopic).mapM (getDdsTopic env d) = .ok ts)
    (hprint : PrintedApart env entries) :
    SameTopics (fs.filterMap (builtinOfFilter env d)) (OrdMap.ofKeys ts).keys := by
  obtain ⟨gs, hgs, hsub, htext⟩ := getAllFilters_allowlist hfs
  -- a listed entry is read to the topic of its filter
  have hread : ∀ y g t, getWildcardDdsFilterTopic env y = .ok g → namesTopic y = true → getDdsTopic env d y = .ok t →
      t.topicName = g.topicName ∧ t.typeName = g.typeName.value := by
    intro y g t hg hn ht
    obtain ⟨t', ht', hname, htype⟩ := getDdsTopic_of_filter hg hn (qosAccepted_of_getDdsTopic ht)
    cases Except.ok.inj (ht.symm.trans ht')
    exact ⟨hname, htype⟩
  constructor
  · intro t ht
    obtain ⟨f, hf, hft⟩ := List.mem_filterMap.mp ht
    obtain ⟨hvalid, hname, htype⟩ := of_builtinOfFilter hft
    obtain ⟨y, hy, hyf⟩ := exists_of_mem_read hgs (hsub f hf)
    have hlisted : namesTopic y = true := (namesTopic_eq hyf).trans hvalid
    obtain ⟨t₀, ht₀, hyt⟩ := exists_read_of_mem hts (List.mem_filter.mpr ⟨hy, hlisted⟩)
    obtain ⟨hname₀, htype₀⟩ := hread y f t₀ hyf hlisted hyt
    obtain ⟨t', ht', hsame⟩ := OrdMap.exists_same_ofKeys ht₀
    have heq := DdsTopic.equal_of_same hsame
    exact ⟨t', ht', by simpa [DdsTopic.equal, hname, htype, hname₀, htype₀] using heq⟩
  · intro t' ht'
    obtain ⟨y, hy, hyt⟩ := exists_of_mem_read hts (OrdMap.mem_of_mem_ofKeys ht')
    obtain ⟨hy, hlisted⟩ := List.mem_filter.mp hy
    obtain ⟨g, hg, hyg⟩ := exists_read_of_mem hgs hy
    obtain ⟨hname, htype⟩ := hread y g t' hyg hlisted hyt
    obtain ⟨f, hf, hfg⟩ := htext g hg
    obtain ⟨x, hx, hxf⟩ := exists_of_mem_read hgs (hsub f hf)
    obtain ⟨hfname, hftype⟩ := hprint x hx y hy f g hxf hyg hfg hlisted
    have hvalid : isValidDdsTopic f.topicName f.typeName.value = true := by
      rw [hfname, hftype, ← namesTopic_eq hyg]
      exact hlisted
    obtain ⟨t, ht, htn, htt⟩ := builtinOfFilter_eq_some env d hvalid
    refine ⟨t, List.mem_filterMap.mpr ⟨f, hf, ht⟩, ?_⟩
    simp [DdsTopic.equal, htn, htt, hname, htype, hfname, hftype]

end Builtin

/-! ### Both versions -/

/-- What two configurations share when at most the builtin topics differ. -/
structure SameApartFromBuiltin (c c' : DDSRouterConfiguration) : Prop where
  participants : c.participantsConfigurations = c'.participantsConfigurations
  allowlist : c.allowlist = c'.allowlist
  blocklist : c.blocklist = c'.blocklist
  advancedOptions : c.advancedOptions = c'.advancedOptions

/-- Equal configurations. -/
def SameConfiguration (c c' : DDSRouterConfiguration) : Prop :=
  SameApartFromBuiltin c c' ∧ SameTopics c.builtinTopics c'.builtinTopics

variable (env : Libraries) (d : UInt32)

/-- With every QoS accepted, the builtin topics are read after the lists. -/
theorem exists_builtin {entries : List (String × Yaml)} (hqos : AllQosAccepted env d entries)
    {fs : List WildcardDdsFilterTopic} (hfs : getAllFilters env (.map entries) "allowlist" = .ok fs) :
    ∃ ts, ((allowlistEntries entries).filter namesTopic).mapM (getDdsTopic env d) = .ok ts := by
  obtain ⟨gs, hgs, -⟩ := getAllFilters_allowlist hfs
  apply exists_mapM
  intro y hy
  obtain ⟨hy, hlisted⟩ := List.mem_filter.mp hy
  obtain ⟨g, -, hyg⟩ := exists_read_of_mem hgs hy
  obtain ⟨t, ht, -⟩ := getDdsTopic_of_filter hyg hlisted (hqos y hy hlisted)
  exact ⟨t, ht⟩

theorem agree_of_qosAccepted {entries : List (String × Yaml)} (hblocks : BlocksHaveType entries)
    (hqos : AllQosAccepted env d entries) :
    Agree (fun c c' => SameApartFromBuiltin c c' ∧
        (PrintedApart env entries → SameTopics c.builtinTopics c'.builtinTopics))
      (getDDSRouterConfiguration env d .v1_0 (.map entries))
      (getDDSRouterConfiguration env d .v2_0 (.map (upgrade entries))) := by
  simp only [getDDSRouterConfiguration, fillDdsrouterConfigurationV1, fillDdsrouterConfigurationLatest,
    getAllFilters_upgrade env entries (.inl rfl), getAllFilters_upgrade env entries (.inr rfl),
    getParticipants_upgrade, specs_upgrade]
  have hallow : Agree (fun a b => a = b ∧ getAllFilters env (.map entries) "allowlist" = .ok a)
      (getAllFilters env (.map entries) "allowlist") (getAllFilters env (.map entries) "allowlist") :=
    Agree.of_ok fun fs hfs => ⟨rfl, hfs⟩
  apply Agree.bind hallow
  rintro fs _ ⟨rfl, hfs⟩
  apply Agree.bind (Agree.of_eq rfl)
  rintro bs _ rfl
  obtain ⟨ts, hts⟩ := exists_builtin env d hqos hfs
  have hfind : (Node.map (upgrade entries)).find "builtin-topics" = some (.sequence _) := lookup_builtin entries
  have hset := getSet_eq_ok_iff.mpr ⟨_, ts, hfind, hts, rfl⟩
  rw [ifPresent_of_lookup (lookup_builtin entries), hset]
  have hparticipants : ∀ e ∈ entries.filter fun e => !isTag e.1, hasType e.2 = true := by
    intro e he
    obtain ⟨he, htag⟩ := List.mem_filter.mp he
    exact hblocks e he (by simpa using htag)
  apply Agree.bind (agree_participants env hparticipants)
  rintro ps _ rfl
  exact ⟨⟨rfl, rfl, rfl, rfl⟩, fun hprint => sameTopics_builtin hfs hts hprint⟩

/-- A QoS that is not accepted is a failure of the later version only. -/
theorem error_of_not_qosAccepted {entries : List (String × Yaml)} (hqos : ¬AllQosAccepted env d entries) :
    ∃ e, getDDSRouterConfiguration env d .v2_0 (.map (upgrade entries)) = .error e := by
  cases hread : getDDSRouterConfiguration env d .v2_0 (.map (upgrade entries)) with
  | error e => exact ⟨e, rfl⟩
  | ok c =>
    exfalso
    apply hqos
    obtain ⟨fs, -, h⟩ := bind_eq_ok hread
    obtain ⟨bs, -, h⟩ := bind_eq_ok h
    obtain ⟨o, ho, -⟩ := bind_eq_ok h
    rw [ifPresent_of_lookup (lookup_builtin entries)] at ho
    obtain ⟨m, hm, -⟩ := bind_eq_ok ho
    obtain ⟨elements, ts, hlookup, hts, -⟩ := getSet_eq_ok_iff.mp hm
    cases (lookup_builtin entries).symm.trans hlookup
    intro y hy hlisted
    obtain ⟨t, -, ht⟩ := exists_read_of_mem hts (List.mem_filter.mpr ⟨hy, hlisted⟩)
    exact qosAccepted_of_getDdsTopic ht

/-- Version 1.0 and the translated document are read to equal configurations, or both fail;
only the QoS of an entry of the allowlist is read by the later version alone. -/
theorem versions_agree {entries : List (String × Yaml)} (hblocks : BlocksHaveType entries) :
    (AllQosAccepted env d entries →
      Agree (fun c c' => SameApartFromBuiltin c c' ∧
          (PrintedApart env entries → SameTopics c.builtinTopics c'.builtinTopics))
        (getDDSRouterConfiguration env d .v1_0 (.map entries))
        (getDDSRouterConfiguration env d .v2_0 (.map (upgrade entries)))) ∧
    (¬AllQosAccepted env d entries →
      ∃ e, getDDSRouterConfiguration env d .v2_0 (.map (upgrade entries)) = .error e) :=
  ⟨agree_of_qosAccepted env d hblocks, error_of_not_qosAccepted env d⟩

/-! Documents with one list or one participant. -/

def decimal (s : String) : Option Nat :=
  s.toList.foldlM (fun n c => if c.isDigit then some (10 * n + (c.toNat - 48)) else none) 0

/-- Libraries for which texts are plain: lower case, one IP, one guid prefix. -/
def plainLibraries : Libraries where
  dds :=
    { isIPv4 s := s = "127.0.0.1"
      isIPv6 _ := false
      resolveNameDNS _ := ([], [])
      wanAddress s := s
      readGuidPrefix s := if s = serverDefaultGuidPrefix then 0x010f0000000000000000cafe else 0
      guidPrefixStr g := toString g.toNat
      unsetIpVersion := .v4 }
  fuzzy := { isSet := fun level => 0 < level, fuzzyStr := Fuzzy.value }
  unsetLevel := 0
  assignedLevel := 2
  toLowercase s := s
  ros2ServerGuidPrefix := "44.53.00.5f.45.50.52.4f.53.49.4d.41"
  asBool s := if s = "true" then some true else if s = "false" then some false else none
  asUInt32 s := (decimal s).map UInt32.ofNat
  asUInt16 s := (decimal s).map UInt16.ofNat

def topicEntry (name type : String) : List (String × Yaml) := [("name", .scalar name), ("type", .scalar type)]

def connection : Yaml :=
  .map [("id", .scalar "4"), ("addresses", .sequence [.map [("ip", .scalar "127.0.0.1"), ("port", .scalar "11666")]])]

/-- A WAN participant with its guid given by an id. -/
def wanRouter : List (String × Yaml) :=
  [("allowlist", .sequence [.map (topicEntry "chat" "String")]),
    ("site", .map [("type", .scalar "wan"), ("id", .scalar "3"), ("connection-addresses", .sequence [connection])])]

theorem wanRouter_read_alike :
    (getDDSRouterConfiguration plainLibraries initialHistoryDepth .v1_0 (.map wanRouter)).isOk = true ∧
      Agree SameConfiguration (getDDSRouterConfiguration plainLibraries initialHistoryDepth .v1_0 (.map wanRouter))
        (getDDSRouterConfiguration plainLibraries initialHistoryDepth .v2_0 (.map (upgrade wanRouter))) := by
  have hentries : allowlistEntries wanRouter = [.map (topicEntry "chat" "String")] := rfl
  have hqos : AllQosAccepted plainLibraries initialHistoryDepth wanRouter := by
    intro y hy _ qos hq
    rw [hentries, List.mem_singleton] at hy
    subst hy
    cases hq
  have hprint : PrintedApart plainLibraries wanRouter := by
    intro x hx y hy f g hf hg _ _
    rw [hentries, List.mem_singleton] at hx hy
    subst hx hy
    cases Except.ok.inj (hf.symm.trans hg)
    exact ⟨rfl, rfl⟩
  have hagree := (versions_agree plainLibraries initialHistoryDepth (by decide : BlocksHaveType wanRouter)).1 hqos
  exact ⟨by decide, hagree.mono fun _ _ h => ⟨h.1, h.2 hprint⟩⟩

/-- The QoS is no boolean, and only the later version looks at it. -/
def chatWithQos : List (String × Yaml) :=
  [("allowlist", .sequence
    [.map (topicEntry "chat" "String" ++ [("qos", .map [("reliability", .scalar "maybe")])])])]

/-- Two topics whose filters have one text. -/
def alikeTopics : List (String × Yaml) :=
  [("allowlist", .sequence [.map (topicEntry "a;b" "c"), .map (topicEntry "a" "b;c")])]

theorem allowlist_read_differently :
    (BlocksHaveType chatWithQos ∧
      ¬Agree SameConfiguration (getDDSRouterConfiguration plainLibraries initialHistoryDepth .v1_0 (.map chatWithQos))
        (getDDSRouterConfiguration plainLibraries initialHistoryDepth .v2_0 (.map (upgrade chatWithQos)))) ∧
    (BlocksHaveType alikeTopics ∧
      ¬Agree SameConfiguration (getDDSRouterConfiguration plainLibraries initialHistoryDepth .v1_0 (.map alikeTopics))
        (getDDSRouterConfiguration plainLibraries initialHistoryDepth .v2_0 (.map (upgrade alikeTopics)))) := by
  refine ⟨⟨by decide, fun h => h⟩, ⟨by decide, fun h => ?_⟩⟩
  have hdiffer : ∃ c c', getDDSRouterConfiguration plainLibraries initialHistoryDepth .v1_0 (.map alikeTopics) = .ok c ∧
      getDDSRouterConfiguration plainLibraries initialHistoryDepth .v2_0 (.map (upgrade alikeTopics)) = .ok c' ∧
      ¬SameTopics c.builtinTopics c'.builtinTopics := by
    refine ⟨_, _, rfl, rfl, ?_⟩
    decide
  obtain ⟨c, c', hc, hc', hne⟩ := hdiffer
  rw [hc, hc'] at h
  exact hne h.2

end DDSRouter.Configuration
