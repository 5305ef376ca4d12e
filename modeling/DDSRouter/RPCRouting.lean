import DDSRouter.RPCTransmission
import Mathlib.Data.List.Pairwise

/-!
# Replies go back to where their request came from

A registry entry of participant `id` under a sequence number stands for a
request that was taken before and has gone out through `id` with that number.
The lookup of a reply hands this on to the task, whatever happens to the entry
afterwards, and the task hands it on to the reply it writes.
-/
namespace DDSRouter.RPC

open Threads Runs

/-- Request `n` was received by participant `id`, and `identity` is what its
reply is to be related to. -/
def Received (log : List Event) (id : ParticipantId) (n : Nat) (identity : SampleIdentity) : Prop :=
  ∃ data, .requestTaken id n data ∈ log ∧ requestIdentity data = identity

/-- Request `n` was received where `entry` says, and it was forwarded through
`id` with the sequence number `k`. -/
def Forwarded (log : List Event) (id : ParticipantId) (k : SequenceNumber)
    (entry : ParticipantId × SampleIdentity) (n : Nat) : Prop :=
  Received log entry.1 n entry.2 ∧ ∃ data served, .requestWritten entry.1 n id data (some k) served ∈ log

/-- What a task knows about the sample in its hands. -/
def Founded (log : List Event) (id : ParticipantId) : TransmitPc → Prop
  | .fanOut n data identity _ => Received log data.participantReceiver n identity
  | .send n data identity _ _ => Received log data.participantReceiver n identity
  | .reply data entry => ∃ n, Forwarded log id data.sampleIdentity.sequenceNumber entry n
  | .lock | .test | .take | .lookup _ | .erase _ | .release => True

/-- The reply that an event writes is the answer to a request of the log. -/
def Answers (log : List Event) : Event → Prop
  | .replyWritten taker through data _ =>
    ∃ n, Forwarded log taker data.sampleIdentity.sequenceNumber (through, data.relatedSampleIdentity) n
  | .requestTaken _ _ _ | .requestWritten _ _ _ _ _ _ => True

structure Routed (s : State) : Prop where
  reader : ∀ key, (s.reader key).participantId = key.2
  entries : ∀ id k entry, s.bridge.entry id k = some entry → ∃ n, Forwarded s.log id k entry n
  tasks : ∀ t ∈ s.running, Founded s.log t.key.2 t.pc
  replies : ∀ pre e post, s.log = pre ++ e :: post → Answers pre e

section Log

variable {log log' : List Event}

theorem received_mono (hl : log ⊆ log') {id : ParticipantId} {n : Nat} {identity : SampleIdentity}
    (h : Received log id n identity) : Received log' id n identity := by
  obtain ⟨data, hd, hi⟩ := h
  exact ⟨data, hl hd, hi⟩

theorem forwarded_mono (hl : log ⊆ log') {id : ParticipantId} {k : SequenceNumber}
    {entry : ParticipantId × SampleIdentity} {n : Nat} (h : Forwarded log id k entry n) :
    Forwarded log' id k entry n := by
  obtain ⟨hrec, data, served, hw⟩ := h
  exact ⟨received_mono hl hrec, data, served, hl hw⟩

theorem founded_mono (hl : log ⊆ log') {id : ParticipantId} {pc : TransmitPc} (h : Founded log id pc) :
    Founded log' id pc := by
  cases pc with
  | fanOut n data identity rest => exact received_mono hl h
  | send n data identity id rest => exact received_mono hl h
  | reply data entry =>
    obtain ⟨n, hn⟩ := h
    exact ⟨n, forwarded_mono hl hn⟩
  | lock | test | take | lookup | erase | release => trivial

end Log

section Preservation

variable {db : Participants} {s s' : State}

theorem routed_create (db : Participants) (topic : RPCTopic) : Routed (create db topic) := by
  constructor
  · intro key
    rfl
  · intro id k entry h
    cases h
  · intro t ht
    cases ht
  · intro pre e post h
    simp [create] at h

/-- A step that appends at most one event to the log. -/
theorem routed_of_step {x : Option Event} (h : Routed s) (hl : s'.log = s.log ++ x.toList)
    (hr : ∀ key, (s'.reader key).participantId = (s.reader key).participantId)
    (he : ∀ id k entry, s'.bridge.entry id k = some entry →
      s.bridge.entry id k = some entry ∨ ∃ n, Forwarded s'.log id k entry n)
    (ht : ∀ t ∈ s'.running, t ∈ s.running ∨ Founded s'.log t.key.2 t.pc)
    (hx : ∀ e, x = some e → Answers s.log e) : Routed s' := by
  have hsub : s.log ⊆ s'.log := by
    rw [hl]
    exact List.subset_append_left _ _
  constructor
  · intro key
    rw [hr, h.reader]
  · intro id k entry hk
    rcases he id k entry hk with hold | hnew
    · obtain ⟨n, hn⟩ := h.entries id k entry hold
      exact ⟨n, forwarded_mono hsub hn⟩
    · exact hnew
  · intro t hmem
    rcases ht t hmem with hold | hnew
    · exact founded_mono hsub (h.tasks t hold)
    · exact hnew
  · intro pre e post hsplit
    rw [hl] at hsplit
    cases x with
    | none => exact h.replies pre e post (by simpa using hsplit)
    | some e' =>
      -- the event is the new one, or it lies in the old log
      rcases List.eq_nil_or_concat post with rfl | ⟨post, e₂, rfl⟩
      · obtain ⟨hpre, he'⟩ := List.append_inj' hsplit rfl
        simp only [Option.toList_some, List.cons.injEq, and_true] at he'
        subst he'
        rw [← hpre]
        exact hx e' rfl
      · rw [List.concat_eq_append, ← List.cons_append, ← List.append_assoc] at hsplit
        exact h.replies pre e post (List.append_inj' hsplit rfl).1

theorem routed_outer {a : Action} (h : Routed s) (ho : Outer db s a s') : Routed s' := by
  apply routed_of_step (x := none) h
  · simpa using ho.log
  · exact ho.reader
  · intro id k entry hk
    refine .inl ?_
    have hb := ho.bridge
    generalize s'.bridge = b at hb hk
    cases hb with
    | keep => exact hk
    | discovered id' g hid => rwa [RPCBridge.entry_discoveredService] at hk
    | removed id' g => exact hk
    | enable created => exact RPCBridge.entry_of_enable hk
    | disable => exact hk
  · intro t ht
    rcases ho.running t ht with hold | ⟨hpc, -⟩
    · exact .inl hold
    · rw [hpc]
      exact .inr trivial
  · intro e he
    cases he

/-- A step of a task that hands on what it needs to know. -/
theorem routed_task {i : Nat} {key : ReaderKey} {s₁ : State} {e : Option Event} {x : Option TransmitPc}
    (h : Routed s) (hl : s₁.log = s.log ++ e.toList)
    (hr : ∀ key, (s₁.reader key).participantId = (s.reader key).participantId)
    (he : ∀ id k entry, s₁.bridge.entry id k = some entry →
      s.bridge.entry id k = some entry ∨ ∃ n, Forwarded s₁.log id k entry n)
    (hx : ∀ pc, x = some pc → Founded s₁.log key.2 pc) (ha : ∀ e', e = some e' → Answers s.log e') :
    Routed { s₁ with running := advance s.running i (x.map (Task.mk key)) } := by
  refine routed_of_step h hl hr he (fun t ht => ?_) ha
  rcases mem_advance ht with hold | hnew
  · exact .inl hold
  · obtain ⟨pc, hpc, rfl⟩ := Option.map_eq_some_iff.mp hnew
    exact .inr (hx pc hpc)

/-- The same, where nothing is logged and the registries stay as they are. -/
theorem routed_quiet {i : Nat} {key : ReaderKey} {s₁ : State} {x : Option TransmitPc} (h : Routed s)
    (hl : s₁.log = s.log) (hb : s₁.bridge = s.bridge)
    (hr : ∀ key, (s₁.reader key).participantId = (s.reader key).participantId)
    (hx : ∀ pc, x = some pc → Founded s.log key.2 pc) :
    Routed { s₁ with running := advance s.running i (x.map (Task.mk key)) } := by
  apply routed_task (e := none) h
  · simpa using hl
  · exact hr
  · intro id k entry hk
    exact .inl (by rwa [← hb])
  · rwa [hl]
  · intro e' he'
    cases he'

theorem forwarded_sendRequest {n : Nat} {data : DataReceived} {identity : SampleIdentity}
    {id : ParticipantId} {k : SequenceNumber} (h : Received s.log data.participantReceiver n identity) :
    Forwarded (sendRequest s n data identity id (some k)).1.log id k (data.participantReceiver, identity) n := by
  refine ⟨received_mono (List.subset_append_left _ _) h, ?_⟩
  exact ⟨_, _, List.mem_append_right _ List.mem_cons_self⟩

theorem routed_send {i : Nat} {key : ReaderKey} {n : Nat} {data : DataReceived} {identity : SampleIdentity}
    {id : ParticipantId} {rest : List ParticipantId} {sent : Option SequenceNumber} (h : Routed s)
    (hrec : Received s.log data.participantReceiver n identity) :
    Routed { (sendRequest s n data identity id sent).1 with
      running := advance s.running i
        ((some (.fanOut n (sendRequest s n data identity id sent).2 identity rest)).map (Task.mk key)) } := by
  refine routed_task (e := some _) h rfl (fun _ => rfl) ?_ ?_ ?_
  · intro q k entry hk
    cases sent with
    | none => exact .inl hk
    | some k' =>
      rcases RPCBridge.entry_of_add hk with hold | ⟨rfl, rfl, rfl⟩
      · exact .inl hold
      · exact .inr ⟨n, forwarded_sendRequest hrec⟩
  · intro pc hpc
    cases hpc
    exact received_mono (List.subset_append_left _ _) hrec
  · intro e' he'
    cases he'
    trivial

theorem routed_transmit {i : Nat} {t : Task} {s₁ : State} {x : Option TransmitPc} (h : Routed s)
    (hat : s.running[i]? = some t) (hm : TransmitMove db s t.key t.pc s₁ x) :
    Routed { s₁ with running := advance s.running i (x.map (Task.mk t.key)) } := by
  obtain ⟨key, pc⟩ := t
  have hin := h.tasks _ (mem_of_at hat)
  have hid := h.reader key
  simp only at hm hin ⊢
  cases hm with
  | lock | sentAll | unknown | release =>
    refine routed_quiet h rfl rfl (fun _ => rfl) fun pc hpc => ?_
    cases hpc
    trivial
  | stay | skip | choose =>
    refine routed_quiet h rfl rfl (fun _ => rfl) fun pc hpc => ?_
    cases hpc
    exact hin
  | leave =>
    refine routed_quiet h rfl rfl (fun k => by rw [reader_setEmitted]) fun pc hpc => ?_
    cases hpc
  | notTaken history =>
    refine routed_quiet h rfl rfl (participantId_setReader rfl) fun pc hpc => ?_
    cases hpc
    trivial
  | request n c history pc' ht hpc' =>
    refine routed_task (e := some _) h rfl (participantId_setReader rfl) (fun _ _ _ hk => .inl hk) ?_ ?_
    · intro pc hpc
      cases hpc
      rcases hpc' with rfl | rfl
      · trivial
      · exact ⟨_, List.mem_append_right _ List.mem_cons_self, rfl⟩
    · intro e' he'
      cases he'
      trivial
  | response c history pc' ht hpc' =>
    refine routed_quiet h rfl rfl (participantId_setReader rfl) fun pc hpc => ?_
    cases hpc
    rcases hpc' with rfl | rfl <;> trivial
  | send n data identity id rest sent => exact routed_send h hin
  | known data r entry hr hf hv =>
    refine routed_quiet h rfl rfl (fun _ => rfl) fun pc hpc => ?_
    cases hpc
    rw [hid] at hr
    exact h.entries key.2 _ entry (by simpa [RPCBridge.entry, hr] using hf)
  | reply data entry ok pc' hpc' =>
    refine routed_task (e := some _) h rfl (fun _ => rfl) (fun _ _ _ hk => .inl hk) ?_ ?_
    · intro pc hpc
      cases hpc
      rw [hpc']
      split <;> trivial
    · intro e' he'
      cases he'
      rw [hid]
      exact hin
  | erase idx =>
    refine routed_task (e := none) h (by simp) (fun _ => rfl) ?_ ?_ ?_
    · exact fun _ _ _ hk => .inl (RPCBridge.entry_of_erase hk)
    · intro pc hpc
      cases hpc
      trivial
    · intro e' he'
      cases he'

theorem routed_step {a : Action} (h : Routed s) (hs : step db s a = some s') : Routed s' := by
  cases a with
  | transmit i o =>
    obtain ⟨t, s₁, x, hat, hm, rfl⟩ := step_transmit_inv hs
    exact routed_transmit h hat hm
  | arrive | discovered | removed | enable | disable | disableCall | control | start =>
    exact routed_outer h (step_outer hs fun i o => by simp)

/-- The invariant holds after every run of a bridge. -/
theorem routed_run {topic : RPCTopic} {as : List Action} (hr : run (step db) (create db topic) as = some s) :
    Routed s :=
  run_invariant (fun _ _ _ h hs => routed_step h hs) (routed_create db topic) hr

end Preservation

/-- The participant and the number that a successful write of a request used. -/
def Event.sentAs : Event → Option (ParticipantId × SequenceNumber)
  | .requestWritten _ _ through _ sent _ => sent.map (Prod.mk through)
  | .requestTaken _ _ _ | .replyWritten _ _ _ _ => none

/-- No request writer gives out a sequence number twice. -/
def DistinctlySent (log : List Event) : Prop :=
  log.Pairwise fun e e' => e.sentAs = none ∨ e.sentAs ≠ e'.sentAs

instance (log : List Event) : Decidable (DistinctlySent log) :=
  inferInstanceAs (Decidable (log.Pairwise _))

theorem eq_of_sentAs {log : List Event} (hd : DistinctlySent log) {e e' : Event} (he : e ∈ log)
    (he' : e' ∈ log) {p : ParticipantId × SequenceNumber} (hp : e.sentAs = some p)
    (hp' : e'.sentAs = some p) : e = e' := by
  by_contra hne
  have hsymm : Std.Symm fun e e' : Event => e.sentAs = none ∨ e.sentAs ≠ e'.sentAs := by
    constructor
    intro a b hab
    by_cases hb : b.sentAs = none
    · exact .inl hb
    · refine .inr fun heq => ?_
      rcases hab with ha | ha
      · exact hb (heq.trans ha)
      · exact ha heq.symm
  rcases hd.forall he he' hne with h | h
  · simp [hp] at h
  · simp [hp, hp'] at h

/-- Where the request writers number their requests apart, every reply that is
written answers exactly one earlier request: the participant it goes out
through received it with the identity that the reply is related to, and it was
forwarded through the participant that took the reply, with the sequence number
of the reply. -/
theorem reply_answers_one_request (db : Participants) (topic : RPCTopic) (as : List Action) (s : State)
    (hr : run (step db) (create db topic) as = some s) (hd : DistinctlySent s.log)
    (taker through : ParticipantId) (data : DataReceived) (ok : Bool) (pre post : List Event)
    (hlog : s.log = pre ++ .replyWritten taker through data ok :: post) :
    ∃! n, Forwarded pre taker data.sampleIdentity.sequenceNumber (through, data.relatedSampleIdentity) n := by
  obtain ⟨n, hn⟩ := (routed_run hr).replies pre _ post hlog
  refine ⟨n, hn, fun n' hn' => ?_⟩
  obtain ⟨-, d, served, hw⟩ := hn
  obtain ⟨-, d', served', hw'⟩ := hn'
  have hsub : pre ⊆ s.log := by
    rw [hlog]
    exact List.subset_append_left _ _
  have heq := eq_of_sentAs hd (hsub hw') (hsub hw) rfl rfl
  cases heq
  rfl

/-! Two participants: the clients are behind `a`, the server behind `b`. -/

def twoParticipants : Participants where
  ids := [⟨"a"⟩, ⟨"b"⟩]
  isRepeater _ := false
  guid key := ⟨if key.2 = ⟨"a"⟩ then 1 else 2, if key.1 = .request then 1 else 2⟩

def addTwoIntsService : RPCTopic :=
  RPCTopic.ofTopic
    { topicName := "rq/add_two_intsRequest", typeName := "AddTwoInts_Request_"
      topicQos := { reliabilityQos := .reliable } }

/-- A server is discovered and the bridge is enabled to the end. Every reader
is reliable, so a task is queued for each: first those of the reply readers. -/
def enabledFor (id : ParticipantId) : List Action :=
  .discovered id 9 :: (.enable fun _ => .ok) :: List.replicate 9 .control

/-- A request of a client with prefix 5, with its own sequence number. -/
def request (k : SequenceNumber) : CacheChange :=
  { writerGuid := ⟨5, 1⟩, sequenceNumber := k, length := 4, maxSize := 4
    sampleIdentity := ⟨⟨5, 2⟩, SampleIdentity.unknown.sequenceNumber⟩ }

/-- The answer of the server to what the reply reader of `b` asked for. -/
def answer (k : SequenceNumber) : CacheChange :=
  { writerGuid := ⟨9, 1⟩, sequenceNumber := 1, length := 4, maxSize := 4
    sampleIdentity := ⟨twoParticipants.guid (.reply, ⟨"b"⟩), k⟩ }

/-- Two requests go out with the numbers 7 and 8; the second is answered first. -/
def answeredSecond : List Action :=
  List.flatten
    [enabledFor ⟨"b"⟩,
      [.arrive (.request, ⟨"a"⟩) (request 1), .arrive (.request, ⟨"a"⟩) (request 2), .start 2],
      List.replicate 5 (.transmit 0 {}), [.transmit 0 { sent := some 7 }],
      List.replicate 6 (.transmit 0 {}), [.transmit 0 { sent := some 8 }],
      [.arrive (.reply, ⟨"b"⟩) (answer 8), .start 1], List.replicate 5 (.transmit 1 {})]

/-- The reply is related to the second request, number 1 of the arrivals. -/
theorem second_request_answered :
    ∃ s pre data, run (step twoParticipants) (create twoParticipants addTwoIntsService) answeredSecond = some s ∧
      DistinctlySent s.log ∧ s.log = pre ++ [.replyWritten ⟨"b"⟩ ⟨"a"⟩ data true] ∧
      data.relatedSampleIdentity = ⟨⟨5, 2⟩, 2⟩ ∧
      ∃! n, Forwarded pre ⟨"b"⟩ data.sampleIdentity.sequenceNumber (⟨"a"⟩, data.relatedSampleIdentity) n := by
  have hrun : ∃ s, run (step twoParticipants) (create twoParticipants addTwoIntsService) answeredSecond = some s ∧
      DistinctlySent s.log ∧ ∃ data, s.log = s.log.dropLast ++ [.replyWritten ⟨"b"⟩ ⟨"a"⟩ data true] ∧
        data.relatedSampleIdentity = ⟨⟨5, 2⟩, 2⟩ := ⟨_, rfl, by decide, _, rfl, by decide⟩
  obtain ⟨s, hrun, hd, data, hlog, hrel⟩ := hrun
  exact ⟨s, _, data, hrun, hd, hlog, hrel,
    reply_answers_one_request twoParticipants addTwoIntsService answeredSecond s hrun hd ⟨"b"⟩ ⟨"a"⟩ data true
      _ [] hlog⟩

end DDSRouter.RPC
