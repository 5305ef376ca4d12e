import DDSRouter.BuiltinBridges
import DDSRouter.ConfigurationValidity
import DDSRouter.YamlVersions

/-!
# The default history depth of a process

A `TopicQoS` is constructed with the depth that the process holds as its default,
and a router stores the maximum of its configuration there. A document is read
before its router is constructed, so what it leaves open gets the default of
the router before, or the initial one.
-/
namespace DDSRouter.Configuration

open Documents Runs WeakOrder YamlReader

/-! ### What a document says -/

def scalarText : Yaml → Option String
  | .scalar text => some text
  | _ => none

/-- The name and the type of an entry. -/
def namesOf (yml : Yaml) : Option (String × String) := do
  let name ← (yml.find "name").bind scalarText
  let type ← (yml.find "type").bind scalarText
  return (name, type)

/-- The QoS of an entry has a depth. -/
def givesDepth (yml : Yaml) : Bool := (yml.find "qos").any fun qos => (qos.find "depth").isSome

def builtinEntries (yml : Yaml) : List Yaml :=
  match yml.find "builtin-topics" with
  | some (.sequence elements) => elements
  | _ => []

/-- A document that is read into a configuration, from which a router is constructed.
What comes after the check of the configuration completes or throws. -/
structure Construction where
  version : YamlReaderVersion
  yml : Yaml
  completes : Bool

namespace Construction

variable (env : Libraries) (x : Construction)

/-- The document gives no depth for the topic. Of entries with the same name and type
the first one counts, and the filters of version 1.0 have no QoS. -/
def leavesOpen (names : String × String) : Bool :=
  match x.version with
  | .v1_0 => true
  | _ => ((builtinEntries x.yml).find? fun y => namesOf y = some names).any fun y => !givesDepth y

/-- There is a builtin topic for which the document gives no depth. -/
def leavesSomeOpen : Bool :=
  match x.version with
  | .v1_0 =>
    match getAllFilters env x.yml "allowlist" with
    | .ok filters => filters.any fun f => isValidDdsTopic f.topicName f.typeName.value
    | .error _ => false
  | _ => (builtinEntries x.yml).any fun y => (namesOf y).any x.leavesOpen

/-- The maximum of the document, or else its default. Version 1.0 has no specs. -/
def maxDepth : UInt32 :=
  match x.version with
  | .v1_0 => 5000
  | _ => ((((x.yml.find "specs").bind fun specs => specs.find "max-depth").bind scalarText).bind env.asUInt32).getD 5000

end Construction

/-! ### The process -/

namespace Process

variable (env : Libraries) (pointerStr : DdsTopic → String)

/-- The default after the document was read and its router constructed, and the
configuration of the router if there is one. The default is stored once the
configuration has passed its check. -/
def construct (d : UInt32) (x : Construction) : UInt32 × Option DDSRouterConfiguration :=
  match getDDSRouterConfiguration env d x.version x.yml with
  | .error _ => (d, none)
  | .ok c =>
    match DDSRouterImpl.create env.dds pointerStr (pointersOf c) with
    | .error _ => (d, none)
    | .ok _ => (c.advancedOptions.maxHistoryDepth, if x.completes then some c else none)

def step (d : UInt32) (x : Construction) : Option UInt32 := some (construct env pointerStr d x).1

/-- Whatever the router does, the bridges of builtin topics whose depth the document
leaves open have its maximum. -/
def UsesMaximum (d : UInt32) (x : Construction) : Prop :=
  ∀ c, (construct env pointerStr d x).2 = some c →
    ∀ t ∈ c.builtinTopics, x.leavesOpen (t.topicName, t.typeName) = true →
      ∀ router as s b, run (Router.step router) (Router.create router c.toReloadConfiguration) as = some s →
        s.bridges.find t = some b → b.topic.topicQos.historyDepth = (x.maxDepth env).toNat

/-- The document is read, its configuration is valid and the router is completed. -/
def Accepted (d : UInt32) (x : Construction) : Prop :=
  ∃ c, getDDSRouterConfiguration env d x.version x.yml = .ok c ∧
    (pointersOf c).isValid env.dds pointerStr = true ∧ x.completes = true

/-- Either the document leaves no depth open or its maximum is the default already. -/
def OpenAtDefault (d : UInt32) (x : Construction) : Prop :=
  Accepted env pointerStr d x → x.leavesSomeOpen env = true → x.maxDepth env = d

end Process

/-! ### What is read from it -/

section Read

variable {env : Libraries} {d : UInt32} {yml : Yaml} {t : DdsTopic} {tag : String}

/-- A text that was read stands under its tag. -/
theorem scalarText_of_getIn {α : Type} {convert : String → Option α} {a : α}
    (h : getIn yml tag (getScalar convert) = .ok a) : ((yml.find tag).bind scalarText).bind convert = some a := by
  obtain ⟨value, hvalue, h⟩ := bind_eq_ok (mapError_eq_ok h)
  rw [getValueInTag_eq_ok_iff.mp hvalue]
  cases value with
  | null => cases h
  | sequence elements => cases h
  | map l => cases h
  | scalar text =>
    simp only [getScalar] at h
    split at h
    · rename_i a' ha'
      cases h
      exact ha'
    · cases h

theorem namesOf_read (h : getDdsTopic env d yml = .ok t) : namesOf yml = some (t.topicName, t.typeName) := by
  obtain ⟨name, hname, h⟩ := bind_eq_ok h
  obtain ⟨type, htype, h⟩ := bind_eq_ok h
  obtain ⟨keyed, -, h⟩ := bind_eq_ok h
  obtain ⟨qos, -, h⟩ := bind_eq_ok h
  cases Except.ok.inj h
  simp [namesOf, getIn_getString_eq_ok hname, getIn_getString_eq_ok htype, scalarText]

theorem depth_fillTopicQoS {q q' : TopicQoS} (h : fillTopicQoS env q yml = .ok q') (hdepth : yml.find "depth" = none) :
    q'.historyDepth = q.historyDepth := by
  obtain ⟨reliability, -, h⟩ := bind_eq_ok h
  obtain ⟨durability, -, h⟩ := bind_eq_ok h
  obtain ⟨depth, hread, h⟩ := bind_eq_ok h
  obtain ⟨partitions, -, h⟩ := bind_eq_ok h
  obtain ⟨ownership, -, h⟩ := bind_eq_ok h
  cases Except.ok.inj h
  rcases ifPresent_eq_ok hread with ⟨-, rfl⟩ | ⟨hsome, -⟩
  · rfl
  · rw [hdepth] at hsome
    cases hsome

/-- An entry that gives no depth gets the default of the process. -/
theorem depth_read (h : getDdsTopic env d yml = .ok t) (hopen : givesDepth yml = false) :
    t.topicQos.historyDepth = d.toNat := by
  obtain ⟨name, -, h⟩ := bind_eq_ok h
  obtain ⟨type, -, h⟩ := bind_eq_ok h
  obtain ⟨keyed, -, h⟩ := bind_eq_ok h
  obtain ⟨qos, hqos, h⟩ := bind_eq_ok h
  cases Except.ok.inj h
  rcases ifPresent_eq_ok hqos with ⟨-, rfl⟩ | ⟨-, q, hq, rfl⟩
  · rfl
  · obtain ⟨value, hvalue, hq⟩ := bind_eq_ok hq
    rw [givesDepth, getValueInTag_eq_ok_iff.mp hvalue, Option.any_some, Option.isSome_eq_false_iff,
      Option.isNone_iff_eq_none] at hopen
    exact depth_fillTopicQoS hq hopen

theorem maxDepth_read {specs : SpecsConfiguration} (h : getSpecsConfiguration env yml = .ok specs) :
    specs.maxHistoryDepth = (((yml.find "max-depth").bind scalarText).bind env.asUInt32).getD 5000 := by
  obtain ⟨threads, -, h⟩ := bind_eq_ok h
  obtain ⟨depth, hdepth, h⟩ := bind_eq_ok h
  cases Except.ok.inj h
  rcases ifPresent_eq_ok hdepth with ⟨hnone, rfl⟩ | ⟨-, u, hu, rfl⟩
  · rw [hnone]
    rfl
  · rw [scalarText_of_getIn hu]

/-- The builtin topics of the latest versions are those of the entries, each name and
type once. -/
theorem builtin_latest {version : YamlReaderVersion} {c : DDSRouterConfiguration}
    (h : fillDdsrouterConfigurationLatest env d version yml = .ok c) :
    ∃ ts, (builtinEntries yml).mapM (getDdsTopic env d) = .ok ts ∧ c.builtinTopics = (OrdMap.ofKeys ts).keys ∧
      c.advancedOptions.maxHistoryDepth = Construction.maxDepth env ⟨.v3_0, yml, true⟩ := by
  obtain ⟨allowlist, -, h⟩ := bind_eq_ok h
  obtain ⟨blocklist, -, h⟩ := bind_eq_ok h
  obtain ⟨builtin, hbuiltin, h⟩ := bind_eq_ok h
  obtain ⟨participants, -, h⟩ := bind_eq_ok h
  obtain ⟨specs, hspecs, h⟩ := bind_eq_ok h
  cases Except.ok.inj h
  have hmax : (specs.getD {}).maxHistoryDepth = Construction.maxDepth env ⟨.v3_0, yml, true⟩ := by
    rcases ifPresent_eq_ok hspecs with ⟨hnone, rfl⟩ | ⟨-, s, hs, rfl⟩
    · simp [Construction.maxDepth, hnone]
    · obtain ⟨value, hvalue, hs⟩ := bind_eq_ok hs
      rw [Option.getD_some, maxDepth_read hs, Construction.maxDepth, getValueInTag_eq_ok_iff.mp hvalue, Option.bind_some]
  rcases ifPresent_eq_ok hbuiltin with ⟨hnone, rfl⟩ | ⟨-, m, hm, rfl⟩
  · refine ⟨[], ?_, rfl, hmax⟩
    rw [builtinEntries, hnone]
    rfl
  · obtain ⟨elements, ts, hfind, hts, rfl⟩ := getSet_eq_ok_iff.mp hm
    refine ⟨ts, ?_, rfl, hmax⟩
    rw [builtinEntries, hfind]
    exact hts

end Read

/-- What is known of the configuration that a document is read to. -/
structure ReadFrom (env : Libraries) (d : UInt32) (x : Construction) (c : DDSRouterConfiguration) : Prop where
  depth : ∀ t ∈ c.builtinTopics, x.leavesOpen (t.topicName, t.typeName) = true →
    ∀ b ∈ c.builtinTopics, same t b = true → b.topicQos.historyDepth = d.toNat
  someOpen : x.leavesSomeOpen env = true ↔
    ∃ t ∈ c.builtinTopics, x.leavesOpen (t.topicName, t.typeName) = true
  maxDepth : c.advancedOptions.maxHistoryDepth = x.maxDepth env

section ReadFrom

variable {env : Libraries} {d : UInt32} {c : DDSRouterConfiguration} {yml : Yaml} {completes : Bool}

/-- Topics of version 1.0 come from filters, which have no QoS. -/
theorem readFrom_v1 (h : fillDdsrouterConfigurationV1 env d yml = .ok c) :
    ReadFrom env d ⟨.v1_0, yml, completes⟩ c := by
  obtain ⟨allowlist, hallow, h⟩ := bind_eq_ok h
  obtain ⟨blocklist, -, h⟩ := bind_eq_ok h
  obtain ⟨participants, -, h⟩ := bind_eq_ok h
  cases Except.ok.inj h
  refine ⟨fun t _ _ b hb _ => ?_, ?_, rfl⟩
  · obtain ⟨f, -, hf⟩ := List.mem_filterMap.mp hb
    simp only [builtinOfFilter, Option.ite_none_right_eq_some] at hf
    rw [← Option.some.inj hf.2]
    rfl
  · simp only [Construction.leavesSomeOpen, hallow, Construction.leavesOpen, and_true, List.any_eq_true,
      List.mem_filterMap]
    constructor
    · rintro ⟨f, hf, hvalid⟩
      exact ⟨_, f, hf, if_pos hvalid⟩
    · rintro ⟨t, f, hf, ht⟩
      simp only [builtinOfFilter, Option.ite_none_right_eq_some] at ht
      exact ⟨f, hf, ht.1⟩

/-- A topic of the set comes from the first entry with its name and type. -/
theorem firstEntry_of_mem {ts : List DdsTopic} {t : DdsTopic}
    (hts : (builtinEntries yml).mapM (getDdsTopic env d) = .ok ts) (ht : t ∈ (OrdMap.ofKeys ts).keys) :
    ∃ y, (builtinEntries yml).find? (fun y => namesOf y = some (t.topicName, t.typeName)) = some y ∧
      getDdsTopic env d y = .ok t := by
  apply find?_read _ hts (OrdMap.find?_of_mem_ofKeys ht)
  intro y b hb
  rw [namesOf_read hb, Bool.eq_iff_iff, decide_eq_true_eq, DdsTopic.same_iff_names, Option.some.injEq, eq_comm]

/-- The latest versions read the entries alike. -/
theorem readFrom_latest {version : YamlReaderVersion} (h : fillDdsrouterConfigurationLatest env d version yml = .ok c) :
    ReadFrom env d ⟨.v3_0, yml, completes⟩ c := by
  obtain ⟨ts, hts, hbuiltin, hmax⟩ := builtin_latest h
  refine ⟨fun t ht hopen b hb hsame => ?_, ?_, hmax⟩
  · rw [hbuiltin] at ht hb
    cases OrdMap.eq_of_same ht hb hsame
    obtain ⟨y, hy, hread⟩ := firstEntry_of_mem hts ht
    simp only [Construction.leavesOpen, hy, Option.any_some, Bool.not_eq_true'] at hopen
    exact depth_read hread hopen
  · rw [Construction.leavesSomeOpen, List.any_eq_true]
    constructor
    · rintro ⟨y, hy, hopen⟩
      obtain ⟨t, ht, hread⟩ := exists_read_of_mem hts hy
      obtain ⟨t', ht', hsame⟩ := OrdMap.exists_same_ofKeys ht
      rw [namesOf_read hread, Option.any_some, DdsTopic.same_iff_names.mp hsame] at hopen
      exact ⟨t', hbuiltin ▸ ht', hopen⟩
    · rintro ⟨t, ht, hopen⟩
      obtain ⟨y, hy, hread⟩ := firstEntry_of_mem hts (hbuiltin ▸ ht)
      refine ⟨y, List.mem_of_find?_eq_some hy, ?_⟩
      rw [namesOf_read hread]
      exact hopen

theorem readFrom {x : Construction} (h : getDDSRouterConfiguration env d x.version x.yml = .ok c) :
    ReadFrom env d x c := by
  obtain ⟨version, yml, completes⟩ := x
  cases version with
  | v1_0 => exact readFrom_v1 h
  | v2_0 =>
    have hlatest : ReadFrom env d ⟨.v3_0, yml, completes⟩ c := readFrom_latest h
    exact ⟨hlatest.depth, hlatest.someOpen, hlatest.maxDepth⟩
  | v3_0 => exact readFrom_latest h

end ReadFrom

/-! ### Sequences of routers -/

namespace Process

variable {env : Libraries} {pointerStr : DdsTopic → String} {d : UInt32} {x : Construction}

theorem create_eq_ok_iff {dds : FastDds} {c : Pointers} :
    (∃ impl, DDSRouterImpl.create dds pointerStr c = .ok impl) ↔ c.isValid dds pointerStr = true := by
  unfold DDSRouterImpl.create Pointers.isValid
  cases c.validityError dds pointerStr with
  | none => simp
  | some e => simp

/-- A document whose configuration is not valid leaves the default as it was, and any
other one makes its maximum the default. -/
theorem construct_cases (env : Libraries) (pointerStr : DdsTopic → String) (d : UInt32) (x : Construction) :
    (construct env pointerStr d x = (d, none) ∧ ¬ Accepted env pointerStr d x) ∨
      ∃ c, getDDSRouterConfiguration env d x.version x.yml = .ok c ∧ (pointersOf c).isValid env.dds pointerStr = true ∧
        construct env pointerStr d x = (x.maxDepth env, if x.completes then some c else none) := by
  unfold construct
  cases hread : getDDSRouterConfiguration env d x.version x.yml with
  | error e =>
    refine .inl ⟨rfl, fun ⟨c, hc, _⟩ => ?_⟩
    rw [hread] at hc
    cases hc
  | ok c =>
    cases hcreate : DDSRouterImpl.create env.dds pointerStr (pointersOf c) with
    | error e =>
      refine .inl ⟨by simp only [hcreate], fun ⟨c', hc', hvalid, _⟩ => ?_⟩
      rw [hread] at hc'
      cases hc'
      obtain ⟨impl, himpl⟩ := create_eq_ok_iff.mpr hvalid
      rw [hcreate] at himpl
      cases himpl
    | ok impl =>
      refine .inr ⟨c, rfl, create_eq_ok_iff.mp ⟨impl, hcreate⟩, ?_⟩
      simp only [hcreate, (readFrom hread).maxDepth]

/-- A router comes from a document that is accepted. -/
theorem construct_eq_some_iff {c : DDSRouterConfiguration} :
    (construct env pointerStr d x).2 = some c ↔ getDDSRouterConfiguration env d x.version x.yml = .ok c ∧
      (pointersOf c).isValid env.dds pointerStr = true ∧ x.completes = true := by
  rcases construct_cases env pointerStr d x with ⟨heq, hnot⟩ | ⟨c', hread, hvalid, heq⟩
  · rw [heq]
    exact ⟨nofun, fun h => absurd ⟨c, h⟩ hnot⟩
  · rw [heq, hread]
    simp only [Option.ite_none_right_eq_some, Option.some.injEq, Except.ok.injEq]
    constructor
    · rintro ⟨hcompletes, rfl⟩
      exact ⟨rfl, hvalid, hcompletes⟩
    · rintro ⟨rfl, -, hcompletes⟩
      exact ⟨hcompletes, rfl⟩

/-- The bridges that a document leaves open have the default of the process. -/
theorem usesMaximum_iff (env : Libraries) (pointerStr : DdsTopic → String) (d : UInt32) (x : Construction) :
    UsesMaximum env pointerStr d x ↔ OpenAtDefault env pointerStr d x := by
  constructor
  · rintro h ⟨c, hread, hvalid, hcompletes⟩ hsome
    have hfrom := readFrom hread
    obtain ⟨t, ht, hopen⟩ := hfrom.someOpen.mp hsome
    -- any router serves, as every builtin topic can have its bridge
    let router : Router.Env := ⟨⟨env.fuzzy, fun _ _ => true⟩, []⟩
    obtain ⟨as, s, b, hr, hb⟩ := Router.exists_bridge router ht
    obtain ⟨hmem, hsame⟩ := Router.bridge_topic_builtin hr ht hb
    have hmax := h c (construct_eq_some_iff.mpr ⟨hread, hvalid, hcompletes⟩) t ht hopen router as s b hr hb
    rw [hfrom.depth t ht hopen b.topic hmem hsame] at hmax
    exact UInt32.toNat_inj.mp hmax.symm
  · intro h c hc t ht hopen router as s b hr hb
    obtain ⟨hread, hvalid, hcompletes⟩ := construct_eq_some_iff.mp hc
    have hfrom := readFrom hread
    obtain ⟨hmem, hsame⟩ := Router.bridge_topic_builtin hr ht hb
    rw [hfrom.depth t ht hopen b.topic hmem hsame, h ⟨c, hread, hvalid, hcompletes⟩ (hfrom.someOpen.mpr ⟨t, ht, hopen⟩)]

/-- In a process every document gets its own maximum where it leaves a depth open iff
each one that does so has the maximum of the router before it, and the first one
the initial default. -/
theorem along_usesMaximum_iff (env : Libraries) (pointerStr : DdsTopic → String) (xs : List Construction) :
    Along (step env pointerStr) (UsesMaximum env pointerStr) initialHistoryDepth xs ↔
      Along (step env pointerStr) (OpenAtDefault env pointerStr) initialHistoryDepth xs := by
  have heq : UsesMaximum env pointerStr = OpenAtDefault env pointerStr := by
    funext d x
    exact propext (usesMaximum_iff env pointerStr d x)
  rw [heq]

/-- One participant and one builtin topic, with the specs as given. -/
def chatRouter (specs : List (String × Yaml)) : Construction :=
  { version := .v3_0
    yml := .map
      [("participants", .sequence [.map [("name", .scalar "p"), ("kind", .scalar "local")]]),
        ("builtin-topics", .sequence [.map (topicEntry "chat" "String")]), ("specs", .map specs)]
    completes := true }

/-- The topic of the first router gets the initial default instead of the maximum. -/
theorem first_router_misses_maximum :
    ¬ Along (step plainLibraries fun _ => "") (UsesMaximum plainLibraries fun _ => "") initialHistoryDepth
      [chatRouter []] := by
  intro h
  have hopen := (usesMaximum_iff _ _ _ _).mp (h _ rfl).1
  have hmax := hopen ⟨_, rfl, by decide, rfl⟩ (by decide)
  exact absurd hmax (by decide)

end Process

end DDSRouter.Configuration
