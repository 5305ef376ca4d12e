import DDSRouter.Router
import Mathlib.Logic.Function.Basic

/-!
# Endpoints for new bridges

A bridge asks the participants for its endpoints, one call after the other. A
`BaseParticipant` keeps what it has created under the topic, and does not create a
second endpoint of a kind in one topic. Every call can throw an
`InitializationException`, which the router catches for a topic and the bridge
itself for a service.
-/
namespace DDSRouter

/-- The endpoints that a participant has created. -/
structure BaseParticipant (ω ρ : Type) where
  writers : OrdMap DdsTopic ω := OrdMap.empty
  readers : OrdMap DdsTopic ρ := OrdMap.empty

namespace BaseParticipant

variable {ω ρ : Type}

/-- `create_writer`, with what `create_writer_` gives back; `none` is an
exception. -/
def createWriter (p : BaseParticipant ω ρ) (topic : DdsTopic) (writer : Option ω) :
    Option (BaseParticipant ω ρ) :=
  if p.writers.contains topic then none
  else writer.map fun w => { p with writers := p.writers.set topic w }

def createReader (p : BaseParticipant ω ρ) (topic : DdsTopic) (reader : Option ρ) :
    Option (BaseParticipant ω ρ) :=
  if p.readers.contains topic then none
  else reader.map fun r => { p with readers := p.readers.set topic r }

end BaseParticipant

namespace BridgeCreation

open WeakOrder

variable {ω ρ : Type}

abbrev Participants (ω ρ : Type) := ParticipantId → BaseParticipant ω ρ

/-- What `create_writer_` and `create_reader_` of the participants give back. -/
structure Answers (ω ρ : Type) where
  writer : ParticipantId → DdsTopic → Option ω
  reader : ParticipantId → DdsTopic → Option ρ

inductive Call where
  | writer (id : ParticipantId) (topic : DdsTopic)
  | reader (id : ParticipantId) (topic : DdsTopic)
  deriving DecidableEq, Repr

/-- One call of `create_writer` or `create_reader`. -/
def perform (answers : Answers ω ρ) (ps : Participants ω ρ) : Call → Option (Participants ω ρ)
  | .writer id t => ((ps id).createWriter t (answers.writer id t)).map (Function.update ps id)
  | .reader id t => ((ps id).createReader t (answers.reader id t)).map (Function.update ps id)

/-- Calls up to the first that throws, and whether none did. -/
def performAll (answers : Answers ω ρ) : List Call → Participants ω ρ → Participants ω ρ × Bool
  | [], ps => (ps, true)
  | c :: cs, ps =>
    match perform answers ps c with
    | none => (ps, false)
    | some ps => performAll answers cs ps

/-- The first loop of `DDSBridge::DDSBridge`. -/
def createEndpoints (answers : Answers ω ρ) (t : DdsTopic) :
    List ParticipantId → Participants ω ρ → Participants ω ρ × Bool
  | [], ps => (ps, true)
  | id :: rest, ps =>
    match performAll answers [.writer id t, .reader id t] ps with
    | (ps, true) => createEndpoints answers t rest ps
    | (ps, false) => (ps, false)

structure State (ω ρ : Type) where
  router : Router.State
  participants : Participants ω ρ

def createNewBridge (answers : Answers ω ρ) (ids : List ParticipantId) (s : State ω ρ) (t : DdsTopic) : State ω ρ :=
  match createEndpoints answers t ids s.participants with
  | (ps, true) =>
    { router := { s.router with bridges := s.router.bridges.set t { topic := t, enabled := true } }
      participants := ps }
  | (ps, false) => { s with participants := ps }

def activateTopic (answers : Answers ω ρ) (ids : List ParticipantId) (s : State ω ρ) (t : DdsTopic) : State ω ρ :=
  let s := { s with router := { s.router with currentTopics := s.router.currentTopics.set t true } }
  match s.router.bridges.find t with
  | none => createNewBridge answers ids s t
  | some b => { s with router := { s.router with bridges := s.router.bridges.set t { b with enabled := true } } }

/-- The calls of `create_proxy_client_nts_` and `create_proxy_server_nts_`. -/
def clientCalls (topic : RPCTopic) (id : ParticipantId) : List Call :=
  [.writer id topic.requestTopic, .reader id topic.replyTopic]

def serverCalls (topic : RPCTopic) (id : ParticipantId) : List Call :=
  [.writer id topic.replyTopic, .reader id topic.requestTopic]

/-- `RPCBridge::init_nts_` with the participants. -/
def initNts (answers : Answers ω ρ) :
    List ParticipantId → Participants ω ρ → RPCBridge → Participants ω ρ × RPCBridge × Bool
  | [], ps, b => (ps, { b with init := true }, true)
  | id :: rest, ps, b =>
    match performAll answers (clientCalls b.topic id) ps with
    | (ps, false) => (ps, b, false)
    | (ps, true) =>
      match performAll answers (serverCalls b.topic id) ps with
      | (ps, false) => (ps, { b with serviceRegistries := b.serviceRegistries.set id {} }, false)
      | (ps, true) =>
        initNts answers rest ps
          { b with
            currentServers := b.currentServers.set id (b.servers id)
            serviceRegistries := b.serviceRegistries.set id { enabled := b.servers id ≠ ∅ } }

/-- `RPCBridge::enable` with the participants. -/
def enable (answers : Answers ω ρ) (ids : List ParticipantId) (ps : Participants ω ρ) (b : RPCBridge) :
    Participants ω ρ × RPCBridge :=
  if !b.enabled && b.serversAvailable then
    if b.init then (ps, { b with enabled := true })
    else
      match initNts answers ids ps b with
      | (ps, b, true) => (ps, { b with enabled := true })
      | (ps, b, false) => (ps, b)
  else (ps, b)

/-! ### Which calls fail -/

/-- The participant has an endpoint of this kind in this topic. -/
def Registered (ps : Participants ω ρ) : Call → Bool
  | .writer id t => (ps id).writers.contains t
  | .reader id t => (ps id).readers.contains t

/-- The call throws. -/
def Fails (answers : Answers ω ρ) (ps : Participants ω ρ) (c : Call) : Prop :=
  Registered ps c = true ∨
    match c with
    | .writer id t => answers.writer id t = none
    | .reader id t => answers.reader id t = none

/-- Two calls for one endpoint. -/
def Clash : Call → Call → Prop
  | .writer id t, .writer id' t' => id' = id ∧ same t' t = true
  | .reader id t, .reader id' t' => id' = id ∧ same t' t = true
  | _, _ => False

/-- No call throws, neither on its own nor because of one before it. -/
def Clear (answers : Answers ω ρ) (ps : Participants ω ρ) (calls : List Call) : Prop :=
  (calls.Pairwise fun c c' => ¬ Clash c c') ∧ ∀ c ∈ calls, ¬ Fails answers ps c

def topicCalls (ids : List ParticipantId) (t : DdsTopic) : List Call :=
  ids.flatMap fun id => [.writer id t, .reader id t]

def serviceCalls (ids : List ParticipantId) (topic : RPCTopic) : List Call :=
  ids.flatMap fun id => clientCalls topic id ++ serverCalls topic id

/-! ### Single calls -/

variable {answers : Answers ω ρ} {ps ps' : Participants ω ρ} {c : Call} {cs : List Call}

theorem perform_eq_none : perform answers ps c = none ↔ Fails answers ps c := by
  cases c with
  | writer id t =>
    simp only [perform, BaseParticipant.createWriter, Fails, Registered, Option.map_eq_none_iff]
    split
    · simp [*]
    · simp [*]
  | reader id t =>
    simp only [perform, BaseParticipant.createReader, Fails, Registered, Option.map_eq_none_iff]
    split
    · simp [*]
    · simp [*]

/-- A call that succeeds registers its endpoint, and only this one. -/
theorem registered_perform (h : perform answers ps c = some ps') (c' : Call) :
    Registered ps' c' = true ↔ Clash c c' ∨ Registered ps c' = true := by
  cases c with
  | writer id t =>
    simp only [perform, BaseParticipant.createWriter] at h
    split at h
    · simp at h
    · simp only [Option.map_map, Option.map_eq_some_iff, Function.comp] at h
      obtain ⟨w, -, rfl⟩ := h
      cases c' with
      | writer id' t' | reader id' t' =>
        by_cases hid : id' = id
        · subst hid
          simp [Registered, Clash]
        · simp [Registered, Clash, hid]
  | reader id t =>
    simp only [perform, BaseParticipant.createReader] at h
    split at h
    · simp at h
    · simp only [Option.map_map, Option.map_eq_some_iff, Function.comp] at h
      obtain ⟨r, -, rfl⟩ := h
      cases c' with
      | writer id' t' | reader id' t' =>
        by_cases hid : id' = id
        · subst hid
          simp [Registered, Clash]
        · simp [Registered, Clash, hid]

theorem clash_self (c : Call) : Clash c c := by cases c <;> simp [Clash]

theorem fails_perform (answers' : Answers ω ρ) (h : perform answers ps c = some ps') (c' : Call) :
    Fails answers' ps' c' ↔ Clash c c' ∨ Fails answers' ps c' := by
  unfold Fails
  rw [registered_perform h, or_assoc]

/-! ### Lists of calls -/

theorem performAll_cons_some (h : perform answers ps c = some ps') :
    performAll answers (c :: cs) ps = performAll answers cs ps' := by
  simp [performAll, h]

theorem performAll_cons_none (h : Fails answers ps c) : performAll answers (c :: cs) ps = (ps, false) := by
  simp [performAll, perform_eq_none.mpr h]

theorem performAll_append (cs ds : List Call) (ps : Participants ω ρ) :
    performAll answers (cs ++ ds) ps =
      if (performAll answers cs ps).2 then performAll answers ds (performAll answers cs ps).1
      else ((performAll answers cs ps).1, false) := by
  induction cs generalizing ps with
  | nil => rfl
  | cons c cs ih =>
    cases h : perform answers ps c with
    | none => simp [performAll, h]
    | some ps' =>
      rw [List.cons_append, performAll_cons_some h, performAll_cons_some h]
      exact ih ps'

theorem clear_cons (h : perform answers ps c = some ps') (answers' : Answers ω ρ) :
    Clear answers' ps (c :: cs) ↔ ¬ Fails answers' ps c ∧ Clear answers' ps' cs := by
  unfold Clear
  rw [List.pairwise_cons, List.forall_mem_cons]
  simp only [fails_perform answers' h, not_or]
  constructor
  · rintro ⟨⟨hc, hcs⟩, hf, hfs⟩
    exact ⟨hf, hcs, fun c' hc' => ⟨hc c' hc', hfs c' hc'⟩⟩
  · rintro ⟨hf, hcs, hfs⟩
    exact ⟨⟨fun c' hc' => (hfs c' hc').1, hcs⟩, hf, fun c' hc' => (hfs c' hc').2⟩

theorem performAll_ok : (performAll answers cs ps).2 = true ↔ Clear answers ps cs := by
  induction cs generalizing ps with
  | nil => simp [performAll, Clear]
  | cons c cs ih =>
    cases h : perform answers ps c with
    | none =>
      have hf := perform_eq_none.mp h
      rw [performAll_cons_none hf]
      simp [Clear, hf]
    | some ps' =>
      have hf : ¬ Fails answers ps c := fun hf => by simp [perform_eq_none.mpr hf] at h
      rw [performAll_cons_some h, ih, clear_cons h]
      simp [hf]

theorem registered_performAll {c' : Call} (h : Registered ps c' = true) (answers : Answers ω ρ) (cs : List Call) :
    Registered (performAll answers cs ps).1 c' = true := by
  induction cs generalizing ps with
  | nil => exact h
  | cons c cs ih =>
    cases hp : perform answers ps c with
    | none =>
      rw [performAll_cons_none (perform_eq_none.mp hp)]
      exact h
    | some ps' =>
      rw [performAll_cons_some hp]
      exact ih ((registered_perform hp c').mpr (.inr h))

/-- Once the first call has succeeded, its endpoint stays. -/
theorem performAll_unchanged : (performAll answers (c :: cs) ps).1 = ps ↔ Fails answers ps c := by
  constructor
  · intro h
    by_contra hf
    obtain ⟨ps', hp⟩ := Option.ne_none_iff_exists'.mp (mt perform_eq_none.mp hf)
    have hr : Registered ps' c = true := (registered_perform hp c).mpr (.inl (clash_self c))
    have hr' := registered_performAll hr answers cs
    rw [← performAll_cons_some hp, h] at hr'
    exact hf (.inl hr')
  · intro hf
    rw [performAll_cons_none hf]

/-! ### The two constructions -/

theorem createEndpoints_eq (answers : Answers ω ρ) (t : DdsTopic) (ids : List ParticipantId)
    (ps : Participants ω ρ) : createEndpoints answers t ids ps = performAll answers (topicCalls ids t) ps := by
  induction ids generalizing ps with
  | nil => rfl
  | cons id rest ih =>
    rw [topicCalls, List.flatMap_cons, performAll_append, createEndpoints]
    split
    · rename_i ps' h
      rw [h]
      exact ih ps'
    · rename_i ps' h
      rw [h]
      rfl

theorem initNts_participants (answers : Answers ω ρ) (ids : List ParticipantId) (ps : Participants ω ρ)
    (b : RPCBridge) :
    ((initNts answers ids ps b).1, (initNts answers ids ps b).2.2) =
      performAll answers (serviceCalls ids b.topic) ps := by
  induction ids generalizing ps b with
  | nil => rfl
  | cons id rest ih =>
    rw [serviceCalls, List.flatMap_cons, performAll_append, performAll_append, initNts]
    split
    · rename_i ps' h
      simp [h]
    · rename_i ps' h
      split
      · rename_i ps'' h'
        simp [h, h']
      · rename_i ps'' h'
        simp only [h, h']
        exact ih ps'' _

/-- Where no call throws, the bridge is as without the participants. -/
theorem initNts_bridge {ids : List ParticipantId} {b : RPCBridge} (h : (initNts answers ids ps b).2.2 = true) :
    (initNts answers ids ps b).2 = b.initNts (fun _ => .ok) ids := by
  induction ids generalizing ps b with
  | nil => rfl
  | cons id rest ih =>
    rw [initNts] at h ⊢
    split at h
    · cases h
    · split at h
      · cases h
      · exact ih h

theorem createEndpoints_ok {ids : List ParticipantId} {t : DdsTopic} :
    (createEndpoints answers t ids ps).2 = true ↔ Clear answers ps (topicCalls ids t) := by
  rw [createEndpoints_eq, performAll_ok]

theorem initNts_ok {ids : List ParticipantId} {b : RPCBridge} :
    (initNts answers ids ps b).2.2 = true ↔ Clear answers ps (serviceCalls ids b.topic) := by
  rw [← performAll_ok, ← initNts_participants]

/-- The router of an activation in which no call throws. -/
theorem activateTopic_router {ids : List ParticipantId} {s : State ω ρ} {t : DdsTopic}
    (hc : Clear answers s.participants (topicCalls ids t)) :
    (activateTopic answers ids s t).router = Router.activateTopic s.router t := by
  have hok := createEndpoints_ok.mpr hc
  unfold activateTopic Router.activateTopic createNewBridge
  simp only
  cases s.router.bridges.find t with
  | some b => rfl
  | none =>
    simp only
    split
    · rfl
    · rename_i ps' h
      simp [h] at hok

/-- The bridge of an `enable` in which no call throws. -/
theorem enable_bridge {ids : List ParticipantId} {b : RPCBridge}
    (hc : Clear answers ps (serviceCalls ids b.topic)) :
    (enable answers ids ps b).2 = b.enable (fun _ => .ok) ids := by
  have hok := initNts_ok.mpr hc
  have hb := initNts_bridge hok
  unfold enable RPCBridge.enable
  split
  · split
    · rfl
    · rw [← hb]
      split
      · rename_i ps' b' h
        simp [h]
      · rename_i ps' b' h
        simp [h] at hok
  · rfl

/-! ### What a failure leaves behind -/

/-- A failed construction of the bridge of `t` leaves no trace. -/
def TopicUntraced (answers : Answers ω ρ) (ids : List ParticipantId) (s : State ω ρ) (t : DdsTopic) : Prop :=
  s.router.bridges.contains t = false →
  (createEndpoints answers t ids s.participants).2 = false →
  let s' := activateTopic answers ids s t
  s'.participants = s.participants ∧ s'.router.currentTopics.find t ≠ some true ∧
    ∀ answers', Clear answers' s.participants (topicCalls ids t) →
      (activateTopic answers' ids s' t).router.bridges.find t = some { topic := t, enabled := true }

/-- A failed initialisation of the bridge leaves no trace. -/
def ServiceUntraced (answers : Answers ω ρ) (ids : List ParticipantId) (ps : Participants ω ρ) (b : RPCBridge) : Prop :=
  b.enabled = false → b.serversAvailable = true → b.init = false →
  (initNts answers ids ps b).2.2 = false →
  let r := enable answers ids ps b
  r.1 = ps ∧
    ∀ answers', Clear answers' ps (serviceCalls ids b.topic) →
      (enable answers' ids r.1 r.2).2.enabled = true

theorem topicUntraced_iff (answers : Answers ω ρ) (ids : List ParticipantId) (s : State ω ρ) (t : DdsTopic) :
    TopicUntraced answers ids s t ↔
      s.router.bridges.contains t = true ∨ Clear answers s.participants (topicCalls ids t) := by
  constructor
  · intro h
    by_contra! hn
    obtain ⟨hb, hc⟩ := hn
    have hb : s.router.bridges.contains t = false := by simpa using hb
    have hok : (createEndpoints answers t ids s.participants).2 = false := by
      simpa using mt createEndpoints_ok.mp hc
    -- The topic is recorded as active before its bridge is created.
    refine (h hb hok).2.1 ?_
    have hf : s.router.bridges.find t = none := by simpa [OrdMap.contains] using hb
    unfold activateTopic createNewBridge
    simp only [hf]
    split <;> simp
  · rintro (hb | hc)
    · intro hb'
      simp [hb] at hb'
    · intro _ hok
      rw [createEndpoints_ok.mpr hc] at hok
      cases hok

theorem initNts_first_fails {ids : List ParticipantId} {b : RPCBridge} (hcs : serviceCalls ids b.topic = c :: cs)
    (hf : Fails answers ps c) : initNts answers ids ps b = (ps, b, false) := by
  cases ids with
  | nil => cases hcs
  | cons id rest =>
    obtain ⟨rfl, -⟩ : c = .writer id b.topic.requestTopic ∧ _ := by
      simpa [serviceCalls, clientCalls, eq_comm] using hcs
    rw [initNts, clientCalls, performAll_cons_none hf]

/-- `enable` where it comes to create the endpoints. -/
theorem enable_eq {b : RPCBridge} (he : b.enabled = false) (hs : b.serversAvailable = true)
    (hi : b.init = false) (answers : Answers ω ρ) (ids : List ParticipantId) (ps : Participants ω ρ) :
    enable answers ids ps b =
      ((initNts answers ids ps b).1,
        if (initNts answers ids ps b).2.2 then { (initNts answers ids ps b).2.1 with enabled := true }
        else (initNts answers ids ps b).2.1) := by
  unfold enable
  simp only [he, hs, hi, Bool.not_false, Bool.and_self, if_true, Bool.false_eq_true, if_false]
  split
  · rename_i ps' b' h
    simp [h]
  · rename_i ps' b' h
    simp [h]

theorem serviceUntraced_iff (answers : Answers ω ρ) (ids : List ParticipantId) (ps : Participants ω ρ)
    (b : RPCBridge) :
    ServiceUntraced answers ids ps b ↔
      b.enabled = true ∨ b.serversAvailable = false ∨ b.init = true ∨
        Clear answers ps (serviceCalls ids b.topic) ∨
        ∃ c ∈ (serviceCalls ids b.topic).head?, Fails answers ps c := by
  constructor
  · intro h
    by_contra! hn
    obtain ⟨he, hs, hi, hc, hf⟩ := hn
    have he : b.enabled = false := by simpa using he
    have hs : b.serversAvailable = true := by simpa using hs
    have hi : b.init = false := by simpa using hi
    have hok : (initNts answers ids ps b).2.2 = false := by simpa using mt initNts_ok.mp hc
    have hps := (h he hs hi hok).1
    rw [enable_eq he hs hi, congrArg Prod.fst (initNts_participants answers ids ps b)] at hps
    cases hcs : serviceCalls ids b.topic with
    | nil => exact hc (by simp [hcs, Clear])
    | cons c cs =>
      rw [hcs] at hps
      exact hf c (by simp [hcs]) (performAll_unchanged.mp hps)
  · intro h he hs hi hok
    rcases h with h | h | h | h | ⟨c, hmem, hf⟩
    · simp [he] at h
    · simp [hs] at h
    · simp [hi] at h
    · rw [initNts_ok.mpr h] at hok
      cases hok
    · obtain ⟨cs, hcs⟩ := List.head?_eq_some_iff.mp hmem
      have hfirst := initNts_first_fails hcs hf
      have hsame : enable answers ids ps b = (ps, b) := by
        rw [enable_eq he hs hi, hfirst]
        rfl
      rw [hsame]
      refine ⟨rfl, fun answers' hc' => ?_⟩
      rw [enable_eq he hs hi, initNts_ok.mpr hc']
      rfl

/-- Exactly when a failed creation of endpoints leaves no trace, for the bridge
of a topic and for the bridge of a service. -/
theorem failed_creation_untraced (answers : Answers ω ρ) (ids : List ParticipantId) :
    (∀ s t, TopicUntraced answers ids s t ↔
      s.router.bridges.contains t = true ∨ Clear answers s.participants (topicCalls ids t)) ∧
    ∀ ps b, ServiceUntraced answers ids ps b ↔
      b.enabled = true ∨ b.serversAvailable = false ∨ b.init = true ∨
        Clear answers ps (serviceCalls ids b.topic) ∨
        ∃ c ∈ (serviceCalls ids b.topic).head?, Fails answers ps c :=
  ⟨topicUntraced_iff answers ids, serviceUntraced_iff answers ids⟩

/-! Of two participants, the second cannot create a reader at first. -/

def readerless : Answers Unit Unit where
  writer _ _ := some ()
  reader id _ := if id = ⟨"b"⟩ then none else some ()

def willing : Answers Unit Unit where
  writer _ _ := some ()
  reader _ _ := some ()

def untouched : State Unit Unit where
  router := { enabled := true, allowedTopics := AllowedTopicList.create [] [] }
  participants _ := {}

def addTwoInts : RPCBridge where
  topic := RPCTopic.ofTopic { topicName := "rq/add_two_intsRequest", typeName := "AddTwoInts_Request_" }
  currentServers := OrdMap.empty.set ⟨"a"⟩ {1}

/-- The topic stays active and the endpoints stay created, so the next attempt
finds a writer in the first participant and gives no bridge either. -/
theorem creation_blocked_by_leftovers :
    let ids : List ParticipantId := [⟨"a"⟩, ⟨"b"⟩]
    let t : DdsTopic := { topicName := "chatter", typeName := "String" }
    let s' := activateTopic readerless ids untouched t
    let r := enable readerless ids untouched.participants addTwoInts
    ¬ TopicUntraced readerless ids untouched t ∧
    s'.router.currentTopics.find t = some true ∧
    Registered s'.participants (.writer ⟨"a"⟩ t) = true ∧
    (activateTopic willing ids s' t).router.bridges.contains t = false ∧
    ¬ ServiceUntraced readerless ids untouched.participants addTwoInts ∧
    Registered r.1 (.writer ⟨"a"⟩ addTwoInts.topic.requestTopic) = true ∧
    (enable willing ids r.1 r.2).2.enabled = false := by
  refine ⟨?_, by decide, by decide, by decide, ?_, by decide, by decide⟩
  · intro h
    exact (h (by decide) (by decide)).2.1 (by decide)
  · intro h
    have hps := (h (by decide) (by decide) (by decide) (by decide)).1
    have hr : Registered untouched.participants (.writer ⟨"a"⟩ addTwoInts.topic.requestTopic) = true := by
      rw [← hps]
      decide
    exact absurd hr (by decide)

end BridgeCreation

end DDSRouter
