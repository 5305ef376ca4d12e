import DDSRouter.RouterDiscovery

/-!
# QoS of the endpoints of a bridge

A writer of the router offers the QoS of the topic of its bridge to remote readers, and
a reader of the router requests it of remote writers. DDS lets a writer and a reader
talk to each other where what the one offers is enough for what the other requests.
The topic has the QoS of the reader that was announced first, so that the router can
only stand between the endpoints that this reader allows.
-/
namespace DDSRouter

def TopicQoS.isTransientLocal (q : TopicQoS) : Bool := q.durabilityQos = .transientLocal

/-- The policies by which DDS compares a writer and a reader, apart from their partitions.
No deadline is an infinite one. -/
structure Policies where
  durability : DurabilityKind
  reliability : ReliabilityKind
  ownership : OwnershipKind := .shared
  deadline : Option Nat := none
  deriving DecidableEq, Repr

structure WriterQos extends Policies where
  partition : List String := []
  ownershipStrength : BitVec 32 := 0
  deriving DecidableEq, Repr

structure ReaderQos extends Policies where
  partition : List String := []
  deriving DecidableEq, Repr

/-- The kinds that the endpoints of the router announce. -/
def TopicQoS.durability (q : TopicQoS) : DurabilityKind := if q.isTransientLocal then .transientLocal else .volatile

def TopicQoS.reliability (q : TopicQoS) : ReliabilityKind := if q.isReliable then .reliable else .bestEffort

/-- `CommonWriter::get_writer_qos_`, with the shortest deadline so that it is enough for
every reader. -/
def DdsTopic.getWriterQos (topic : DdsTopic) : WriterQos where
  durability := topic.topicQos.durability
  reliability := topic.topicQos.reliability
  deadline := some 0

/-- `QoSSpecificWriter::get_writer_qos_`. -/
def DdsTopic.getSpecificWriterQos (specific : SpecificEndpointQoS) (topic : DdsTopic) : WriterQos :=
  let qos := topic.getWriterQos
  let qos := if topic.topicQos.hasPartitions then { qos with partition := specific.partitions } else qos
  if topic.topicQos.hasOwnership then
    { qos with ownership := topic.topicQos.ownershipQos, ownershipStrength := specific.ownershipStrength }
  else qos

/-- The QoS of the writer that sends data which came with the given specific QoS: an inner
writer of a `MultiWriter`, or the `SimpleWriter`. -/
def DdsTopic.writerQosFor (specific : SpecificEndpointQoS) (topic : DdsTopic) : WriterQos :=
  if topic.topicQos.hasPartitions || topic.topicQos.hasOwnership then topic.getSpecificWriterQos specific
  else topic.getWriterQos

/-- `CommonReader::get_reader_qos_`. -/
def DdsTopic.getReaderQos (topic : DdsTopic) : ReaderQos where
  durability := topic.topicQos.durability
  reliability := topic.topicQos.reliability
  partition := if topic.topicQos.usePartitions then ["*"] else []
  ownership := topic.topicQos.ownershipQos

/-! ### Offered and requested -/

/-- The order of the kinds of durability. -/
def DurabilityKind.rank : DurabilityKind → Nat
  | .volatile => 0
  | .transientLocal => 1
  | .transient => 2
  | .persistent => 3

/-- The deadline is kept by whoever keeps the other one. -/
def meetsDeadline : Option Nat → Option Nat → Prop
  | _, none => True
  | none, some _ => False
  | some offered, some requested => offered ≤ requested

/-- What a writer offers is enough for what a reader requests, as DDS has it. -/
structure Offers (offered requested : Policies) : Prop where
  durability : requested.durability.rank ≤ offered.durability.rank
  reliability : requested.reliability = .reliable → offered.reliability = .reliable
  ownership : requested.ownership = offered.ownership
  deadline : meetsDeadline offered.deadline requested.deadline

/-- The same request without its deadline. -/
def Policies.untimed (p : Policies) : Policies := { p with deadline := none }

theorem offers_trans {p q r : Policies} (hpq : Offers p q.untimed) (hqr : Offers q r.untimed) : Offers p r.untimed where
  durability := hqr.durability.trans hpq.durability
  reliability h := hpq.reliability (hqr.reliability h)
  ownership := hqr.ownership.trans hpq.ownership
  deadline := trivial

theorem offers_untimed {p q : Policies} (h : Offers p q) : Offers p q.untimed :=
  ⟨h.durability, h.reliability, h.ownership, trivial⟩

/-- A remote writer and a remote reader that a bridge stands between, in the sense of DDS. -/
def Connects (topic : DdsTopic) (specific : SpecificEndpointQoS) (w r : Policies) : Prop :=
  Offers w topic.getReaderQos.toPolicies ∧ Offers (topic.writerQosFor specific).toPolicies r

/-- The writers of a topic offer what its readers request, in the shortest time. -/
theorem writerQosFor_policies (topic : DdsTopic) (specific : SpecificEndpointQoS) :
    (topic.writerQosFor specific).toPolicies = { topic.getReaderQos.toPolicies with deadline := some 0 } := by
  unfold DdsTopic.writerQosFor DdsTopic.getSpecificWriterQos DdsTopic.getReaderQos
  cases ho : topic.topicQos.ownershipQos <;> cases hp : topic.topicQos.usePartitions <;>
    simp [TopicQoS.hasPartitions, TopicQoS.hasOwnership, DdsTopic.getWriterQos, ho, hp]

/-- A bridge does not stand between endpoints that could not talk without it, deadlines
apart. -/
theorem offers_of_connects {topic : DdsTopic} {specific : SpecificEndpointQoS} {w r : Policies}
    (h : Connects topic specific w r) : Offers w r.untimed := by
  obtain ⟨hin, hout⟩ := h
  rw [writerQosFor_policies] at hout
  refine offers_trans (offers_untimed hin) ?_
  exact ⟨hout.durability, hout.reliability, hout.ownership, trivial⟩

/-- What a remote reader requests. -/
def EndpointInfo.policies (info : EndpointInfo) (deadline : Option Nat) : Policies where
  durability := info.durability
  reliability := info.reliability
  ownership := info.ownership
  deadline := deadline

/-- Between a writer and the reader that the topic was found by, a bridge stands exactly
where they could talk without it, deadlines apart, and the reader does not request more
than transient local durability. -/
theorem connects_discovered_iff (depth : Nat) (info : EndpointInfo) (specific : SpecificEndpointQoS) (w : Policies)
    (deadline : Option Nat) :
    Connects (CommonParticipant.discoveredTopic depth info) specific w (info.policies deadline) ↔
      info.durability.rank ≤ DurabilityKind.transientLocal.rank ∧ Offers w (info.policies none) := by
  have hdead : meetsDeadline (some 0) deadline := by
    cases deadline with
    | none => trivial
    | some d => exact Nat.zero_le d
  constructor
  · intro h
    refine ⟨?_, offers_of_connects h⟩
    have hrank := h.2.durability
    rw [writerQosFor_policies] at hrank
    refine le_trans hrank ?_
    simp only [DdsTopic.getReaderQos, TopicQoS.durability]
    split <;> decide
  · rintro ⟨hrank, hw⟩
    have hdur : (CommonParticipant.discoveredTopic depth info).topicQos.durability = info.durability := by
      cases hd : info.durability <;> simp_all [CommonParticipant.discoveredTopic, TopicQoS.durability,
        TopicQoS.isTransientLocal, DurabilityKind.rank]
    have hrel : (CommonParticipant.discoveredTopic depth info).topicQos.reliability = info.reliability := by
      cases hr : info.reliability <;> simp [CommonParticipant.discoveredTopic, TopicQoS.reliability,
        TopicQoS.isReliable, hr]
    have hpolicies : (CommonParticipant.discoveredTopic depth info).getReaderQos.toPolicies = info.policies none := by
      rw [DdsTopic.getReaderQos, EndpointInfo.policies, hdur, hrel]
      rfl
    refine ⟨hpolicies ▸ hw, ?_⟩
    rw [writerQosFor_policies, hpolicies]
    exact ⟨le_refl _, id, rfl, hdead⟩

namespace RouterDiscovery

open Runs WeakOrder

variable {env : Router.Env} {s : State} {c : Router.ReloadConfiguration} {echoes : List ParticipantId}
  {as : List Action} {t : DdsTopic}

/-- The first remote reader that is announced in a topic. -/
def firstReader (as : List Action) (t : DdsTopic) : Option Report :=
  ((reports as).filter Report.newReader).find? fun r => same t (CommonParticipant.discoveredTopic r.depth r.info)

/-- The bridge of a topic that is not builtin has the QoS of the reader that was announced
first, and connects it with the writers that it could talk to by itself. Between
others it stands only where they could talk too. -/
theorem bridge_connects_first_reader (hr : run (step env) (create env c echoes) as = some s)
    (hd : s.discovery.queue.bothEmpty = true) (hclear : .clearCallbacks ∉ as) (hstable : Stable as)
    (hplain : RPCTopic.isServiceTopic t = false) (hbuiltin : ∀ b ∈ c.builtinTopics, same t b = false)
    (hreload : ∀ b ∈ trace (step env) builtinReloaded (create env c echoes) as, same t b = false)
    {b : Router.TopicBridge} (hb : s.router.bridges.find t = some b) :
    ∃ r, firstReader as t = some r ∧ b.topic = CommonParticipant.discoveredTopic r.depth r.info ∧
      (∀ specific w q, Connects b.topic specific w q → Offers w q.untimed) ∧
      ∀ specific w deadline, Connects b.topic specific w (r.info.policies deadline) ↔
        r.info.durability.rank ≤ DurabilityKind.transientLocal.rank ∧ Offers w (r.info.policies none) := by
  have hknown := Router.bridge_topic_knownAs (router_run hr) hb
  rw [knownAs_first_reader hr hd hclear hstable hplain hbuiltin hreload, readersAnnounced, List.find?_map,
    Option.map_eq_some_iff] at hknown
  obtain ⟨r, hfirst, htopic⟩ := hknown
  refine ⟨r, hfirst, htopic.symm, fun specific w q => offers_of_connects, fun specific w deadline => ?_⟩
  rw [← htopic]
  exact connects_discovered_iff r.depth r.info specific w deadline

/-- A reliable reader is announced after one that is not, in one topic. -/
def thenReliable : List Action :=
  [.startDatabase, .start, .report ⟨lanParticipant, true, chatReader 9, .discovered, 1000⟩,
    .report ⟨wanParticipant, true, { chatReader 8 with reliability := .reliable }, .discovered, 1000⟩] ++
    List.replicate 15 .thread

theorem bridge_connects_bestEffort :
    ∃ s b, run (step Router.plainEnv) (create Router.plainEnv {} []) thenReliable = some s ∧
      s.router.bridges.find Router.chat = some b ∧ b.topic.topicQos.reliabilityQos = .bestEffort ∧
      Connects b.topic {} ⟨.volatile, .bestEffort, .shared, none⟩ ((chatReader 9).policies none) := by
  have hcheck : (run (step Router.plainEnv) (create Router.plainEnv {} []) thenReliable).map (fun s =>
      (s.discovery.queue.bothEmpty, s.router.bridges.find Router.chat)) =
        some (true, some { topic := Router.chat, enabled := true }) := by
    decide +kernel
  have hnone : trace (step Router.plainEnv) builtinReloaded (create Router.plainEnv {} []) thenReliable = [] := by
    decide +kernel
  obtain ⟨s, hr, hs⟩ := Option.map_eq_some_iff.mp hcheck
  simp only [Prod.mk.injEq] at hs
  obtain ⟨r, hfirst, -, -, hconnects⟩ := bridge_connects_first_reader (t := Router.chat) hr hs.1 (by decide) (by decide)
    (by decide) (by simp) (by simp [hnone]) hs.2
  have hreport : firstReader thenReliable Router.chat =
      some ⟨lanParticipant, true, chatReader 9, .discovered, 1000⟩ := by decide
  rw [hreport, Option.some.injEq] at hfirst
  subst hfirst
  refine ⟨s, _, hr, hs.2, rfl, (hconnects {} _ none).mpr ⟨by decide, ?_⟩⟩
  exact ⟨le_refl _, id, rfl, trivial⟩

end RouterDiscovery

end DDSRouter
