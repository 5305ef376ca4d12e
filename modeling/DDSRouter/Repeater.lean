import DDSRouter.DDSBridge
import DDSRouter.Writer

/-!
# Repeaters

The track of a participant forwards to the writer of that same participant only
if the participant is a repeater. What keeps a sample from going back to where it
came from is then the filter of the writer, which looks at the guid prefix that
the writer has put into the change.

The system here is a bridge with the writers of its participants behind the
interface: every call of `write` that a track makes is one of the writer that
the participant created.
-/
namespace DDSRouter.Track

open Threads

/-- The change that the step brings. -/
def Action.arriving : Action → List CacheChange
  | .arrive c => [c]
  | _ => []

section Flow

variable {targets : List ParticipantId} {w w' : Writers} {s s' : State} {a : Action}

/-- A change is in the history only after it has arrived. -/
theorem step_history (hs : step targets (w, s) a = some (w', s')) {e : Arrival CacheChange}
    (he : e ∈ s'.reader.history) : e ∈ s.reader.history ∨ ∃ c, a = .arrive c ∧ e = (s.log.arrivals, c) := by
  have hcallback : ∀ pc, e ∈ (callbackStep s pc).1.reader.history → e ∈ s.reader.history := by
    intro pc hmem
    rcases callbackStep_history s pc with hr | ⟨m, -, -, -, hr, -⟩
    · rwa [hr] at hmem
    · rw [hr] at hmem
      exact List.mem_of_mem_filter hmem
  cases a with
  | arrive c =>
    cases hs
    rcases Reader.mem_history_received.mp he with he | he
    · exact .inr ⟨c, rfl, he⟩
    · exact .inl he
  | callback i =>
    obtain ⟨pc, -, -, rfl⟩ := step_callback_inv hs
    exact .inl (hcallback pc he)
  | enable | disable =>
    obtain ⟨-, c, rfl⟩ := step_called (by simp) hs
    exact .inl he
  | control =>
    left
    cases step_control_inv hs with
    | enCallback pc hc => exact hcallback pc he
    | enReader hc =>
      simp only [Reader.enable] at he
      split at he <;> exact he
    | enSet | enWriter | disSet | disWait | disReader | disWriter | disDone => exact he
  | start =>
    obtain ⟨-, -, rfl⟩ := step_start_inv hs
    exact .inl he
  | transmit i found =>
    left
    obtain ⟨pc, t, x, -, hm, -, rfl⟩ := step_transmit_inv hs
    cases hm with
    | discarded n c rest hen hh =>
      rw [hh]
      exact List.mem_cons_of_mem _ he
    | taken n c rest hen hh =>
      rw [hh]
      exact List.mem_cons_of_mem _ he
    | lock | stay | leave | store | noData | retry | last | again | written | write | unlock => exact he

/-- Where the samples that are being written come from. -/
theorem step_running (hs : step targets (w, s) a = some (w', s')) {n : Nat} {data : DataReceived}
    {rest : List ParticipantId} (hr : .write n data rest ∈ s'.running) :
    (∃ pre, .write n data (pre ++ rest) ∈ s.running) ∨
      rest = targets ∧ ∃ c, (n, c) ∈ s.reader.history ∧ data = s.reader.fillReceivedData c := by
  cases step_move hs with
  | arrive c => exact .inl ⟨[], hr⟩
  | report h =>
    obtain ⟨j, pc, cs, c, -, -, -⟩ := h
    obtain ⟨st, r, q, l, hf⟩ := callbackStep_frame s pc
    simp only [hf] at hr
    exact .inl ⟨[], hr⟩
  | control e r c hold hnum hnew => exact .inl ⟨[], hr⟩
  | start hq =>
    rcases List.mem_append.mp hr with hr | hr
    · exact .inl ⟨[], hr⟩
    · simp at hr
  | transmit i pc t x hpc hm =>
    have hmem : TransmitPc.write n data rest ∈ s.running ∨ x = some (.write n data rest) := mem_advance hr
    rcases hmem with hmem | rfl
    · exact .inl ⟨[], hmem⟩
    · cases hm with
      | taken n c rest' hen hh => exact .inr ⟨rfl, c, by simp [hh], rfl⟩
      | write n data p rest => exact .inl ⟨[p], mem_of_at hpc⟩

/-- Only a task that has a sample to offer calls `write`. -/
theorem step_writes (hs : step targets (w, s) a = some (w', s')) {call : WriteCall}
    (hc : call ∈ s'.log.writes) :
    call ∈ s.log.writes ∨ ∃ rest, .write call.sample.1 call.sample.2 (call.writer :: rest) ∈ s.running := by
  cases step_move hs with
  | arrive c => exact .inl hc
  | report h =>
    obtain ⟨j, pc, cs, c, -, -, -⟩ := h
    obtain ⟨done, k, hlog⟩ := callbackStep_log s pc
    simp only [hlog] at hc
    exact .inl hc
  | control e r c hold hnum hnew => exact .inl hc
  | start hq => exact .inl hc
  | transmit i pc t x hpc hm =>
    cases hm with
    | write n data p rest =>
      rcases List.mem_append.mp hc with hc | hc
      · exact .inl hc
      · rw [List.mem_singleton.mp hc]
        exact .inr ⟨rest, mem_of_at hpc⟩
    | lock | stay | leave | store | noData | retry | discarded | taken | last | again | written | unlock =>
      exact .inl hc

theorem step_arrivals (hs : step targets (w, s) a = some (w', s')) :
    s'.log.arrivals = s.log.arrivals + a.arriving.length := by
  cases a with
  | arrive c =>
    cases hs
    rfl
  | callback i =>
    obtain ⟨pc, -, -, rfl⟩ := step_callback_inv hs
    obtain ⟨done, k, hlog⟩ := callbackStep_log s pc
    simp [hlog, Action.arriving]
  | enable | disable =>
    obtain ⟨-, c, rfl⟩ := step_called (by simp) hs
    rfl
  | control =>
    cases step_control_inv hs with
    | enCallback pc hc =>
      obtain ⟨done, k, hlog⟩ := callbackStep_log s pc
      simp [hlog, Action.arriving]
    | enReader | enSet | enWriter | disSet | disWait | disReader | disWriter | disDone => rfl
  | start =>
    obtain ⟨-, -, rfl⟩ := step_start_inv hs
    rfl
  | transmit i found =>
    obtain ⟨pc, t, x, -, hm, -, rfl⟩ := step_transmit_inv hs
    cases hm <;> rfl

end Flow

end DDSRouter.Track

namespace DDSRouter.Repeater

open Runs Threads
open DDSBridge (ParticipantsDatabase Bridge)

/-- The participant that the reader and the writer of a bridge belong to. -/
def participant (db : ParticipantsDatabase) (id : ParticipantId) : CommonParticipant :=
  { id := id, guidPrefix := (db.createReader id).guid.guidPrefix, isRepeater := db.isRepeater id }

/-- A change that a writer has sent: the sample it was made of, which the reader
of `track` took, and the RTPS writer it went through. -/
structure Sending where
  track : ParticipantId
  writer : ParticipantId
  n : Nat
  data : RouterData
  through : CommonWriter
  change : WriterChange

/-- `received` are the changes that the readers got, in the order of their
numbers. -/
structure State where
  bridge : Bridge
  writers : ParticipantId → IWriter
  received : ParticipantId → List CacheChange := fun _ => []
  sent : List Sending := []

/-- `qos` is what the reader has filled in as the QoS of the writer. -/
inductive Action where
  | bridge (a : DDSBridge.Action) (qos : SpecificEndpointQoS) (o : WriteOutcome)
  | removeChange (id : ParticipantId) (qos : SpecificEndpointQoS) (i : Nat)

def create (db : ParticipantsDatabase) (entityId : ParticipantId → EntityId) : State :=
  { bridge := DDSBridge.create db
    writers := fun id => (participant db id).createWriter (db.createReader id).topic (entityId id) }

/-- The call of `write` that a step of the bridge makes: the track, the writer
and the sample. -/
def callOf (b : Bridge) : DDSBridge.Action → Option (ParticipantId × ParticipantId × Nat × DataReceived)
  | .track id (.transmit i _) =>
    match (b.tracks id).running[i]? with
    | some (.write n data (p :: _)) => some (id, p, n, data)
    | _ => none
  | _ => none

def receive (received : ParticipantId → List CacheChange) : DDSBridge.Action → ParticipantId → List CacheChange
  | .track id (.arrive c) => Function.update received id (received id ++ [c])
  | _ => received

/-- One call of `write`. -/
def offer (s : State) (id p : ParticipantId) (n : Nat) (data : RouterData) (o : WriteOutcome) : Option State :=
  ((s.writers p).write data o).map fun r =>
    { s with
      writers := Function.update s.writers p r.2
      sent := match r.1.added, r.2.inner data.writerQos with
        | some c, some cw => s.sent ++ [⟨id, p, n, data, cw, c⟩]
        | _, _ => s.sent }

/-- The writers are enabled and disabled with their flags in the bridge. -/
def step (db : ParticipantsDatabase) (s : State) : Action → Option State
  | .bridge a qos o =>
    (DDSBridge.step db s.bridge a).bind fun b =>
      let s' : State := { s with
        bridge := b
        writers := fun id => if b.writers id then (s.writers id).enable else (s.writers id).disable
        received := receive s.received a }
      match callOf s.bridge a with
      | some (id, p, n, data) => offer s' id p n { toDataReceived := data, writerQos := qos } o
      | none => some s'
  | .removeChange id qos i =>
    some { s with writers := Function.update s.writers id ((s.writers id).removeChange qos i) }

/-- The data is that of the change with the number. -/
def From (received : List CacheChange) (n : Nat) (data : DataReceived) : Prop :=
  ∃ c, received[n]? = some c ∧ data.sourceGuid = c.writerGuid

/-- What is known of a change that was sent. -/
structure Tagged (db : ParticipantsDatabase) (received : ParticipantId → List CacheChange) (e : Sending) : Prop where
  writer : e.writer ∈ db.writersExceptOne e.track
  source : From (received e.track) e.n e.data.toDataReceived
  writerGuid : e.change.writerGuid.guidPrefix = (participant db e.writer).guidPrefix
  origin : e.change.lastWriterGuidPrefix =
    if db.isRepeater e.writer then some e.data.sourceGuid.guidPrefix else none
  through : e.through.repeater = db.isRepeater e.writer

/-- What is known of a track with the changes that its reader got. -/
structure Traced (targets : List ParticipantId) (received : List CacheChange) (t : Track.State) : Prop where
  count : t.log.arrivals = received.length
  history : ∀ n c, (n, c) ∈ t.reader.history → received[n]? = some c
  running : ∀ n data rest, .write n data rest ∈ t.running → From received n data ∧ ∀ p ∈ rest, p ∈ targets
  writes : ∀ call ∈ t.log.writes, call.writer ∈ targets

structure Inv (db : ParticipantsDatabase) (s : State) : Prop where
  fit : ∀ id, (s.writers id).Fit (participant db id)
  traced : ∀ id, Traced (db.writersExceptOne id) (s.received id) (s.bridge.tracks id)
  sent : ∀ e ∈ s.sent, Tagged db s.received e

section Steps

variable {db : ParticipantsDatabase} {s s' : State}

theorem mem_writersExceptOne_self {id : ParticipantId} (h : id ∈ db.writersExceptOne id) :
    db.isRepeater id = true := by
  unfold ParticipantsDatabase.writersExceptOne at h
  split at h
  · simp at h
  · rename_i hr
    simpa using hr

/-- A step of the bridge is for each track nothing or a step of the track. -/
theorem tracks_cases {b b' : Bridge} {a : DDSBridge.Action} (h : DDSBridge.step db b a = some b')
    (q : ParticipantId) :
    (b'.tracks q = b.tracks q ∧ ∀ c, a ≠ .track q (.arrive c)) ∨
      ∃ ta w, Track.step (db.writersExceptOne q) (b.writers, b.tracks q) ta = some (w, b'.tracks q) ∧
        ∀ c, ta = .arrive c ↔ a = .track q (.arrive c) := by
  have hupdate : ∀ (id : ParticipantId) (ta : Track.Action) (w : Track.Writers) (t : Track.State),
      Track.step (db.writersExceptOne id) (b.writers, b.tracks id) ta = some (w, t) →
      b'.tracks = Function.update b.tracks id t → (∀ c, ta = .arrive c ↔ a = .track id (.arrive c)) →
      (q ≠ id → ∀ c, a ≠ .track q (.arrive c)) →
      (b'.tracks q = b.tracks q ∧ ∀ c, a ≠ .track q (.arrive c)) ∨
        ∃ ta w, Track.step (db.writersExceptOne q) (b.writers, b.tracks q) ta = some (w, b'.tracks q) ∧
          ∀ c, ta = .arrive c ↔ a = .track q (.arrive c) := by
    intro id ta w t ht hb ha hother
    by_cases hq : q = id
    · subst hq
      refine .inr ⟨ta, w, ?_, ha⟩
      rw [hb, Function.update_self]
      exact ht
    · refine .inl ⟨?_, hother hq⟩
      rw [hb, Function.update_of_ne hq]
  cases a with
  | track id ta =>
    simp only [DDSBridge.step] at h
    split at h
    · obtain ⟨w, t, ht, rfl⟩ := DDSBridge.trackStep_some h
      refine hupdate id ta w t ht rfl (fun c => by simp) fun hq c he => ?_
      cases he
      exact hq rfl
    · cases h
  | enable | disable =>
    cases DDSBridge.step_move h with
    | stay | begin => exact .inl ⟨rfl, fun c => by simp⟩
  | walk =>
    cases DDSBridge.step_move h with
    | enter e id rest w t hw ht =>
      refine hupdate id _ w t ht rfl (fun c => ?_) fun _ c => by simp
      cases e <;> simp
    | inside e id rest w t hw ht => exact hupdate id _ w t ht rfl (fun c => by simp) fun _ c => by simp
    | stay | begin | done | leave => exact .inl ⟨rfl, fun c => by simp⟩

theorem receive_append (received : ParticipantId → List CacheChange) (a : DDSBridge.Action) (id : ParticipantId) :
    ∃ l, receive received a id = received id ++ l := by
  unfold receive
  split
  · rename_i q c
    by_cases hq : id = q
    · subst hq
      exact ⟨[c], Function.update_self _ _ _⟩
    · exact ⟨[], by rw [Function.update_of_ne hq, List.append_nil]⟩
  · exact ⟨[], (List.append_nil _).symm⟩

theorem receive_arrive (received : ParticipantId → List CacheChange) (id : ParticipantId) (c : CacheChange) :
    receive received (.track id (.arrive c)) id = received id ++ [c] := Function.update_self _ _ _

theorem receive_other {received : ParticipantId → List CacheChange} {a : DDSBridge.Action} {id : ParticipantId}
    (h : ∀ c, a ≠ .track id (.arrive c)) : receive received a id = received id := by
  unfold receive
  split
  · rename_i q c
    exact Function.update_of_ne (fun hq => h c (by rw [hq])) _ _
  · rfl

theorem getElem?_receive {received : ParticipantId → List CacheChange} {id : ParticipantId} {n : Nat}
    {c : CacheChange} (h : (received id)[n]? = some c) (a : DDSBridge.Action) :
    (receive received a id)[n]? = some c := by
  obtain ⟨l, hl⟩ := receive_append received a id
  rw [hl, List.getElem?_append_left (List.getElem?_eq_some_iff.mp h).1]
  exact h

theorem from_receive {received : ParticipantId → List CacheChange} {id : ParticipantId} {n : Nat}
    {data : DataReceived} (h : From (received id) n data) (a : DDSBridge.Action) :
    From (receive received a id) n data := by
  obtain ⟨c, hc, hg⟩ := h
  exact ⟨c, getElem?_receive hc a, hg⟩

theorem traced_step {targets : List ParticipantId} {received : List CacheChange} {t t' : Track.State}
    {w w' : Track.Writers} {ta : Track.Action} (h : Traced targets received t)
    (hs : Track.step targets (w, t) ta = some (w', t')) :
    Traced targets (received ++ ta.arriving) t' := by
  have hkeep : ∀ {n : Nat} {c : CacheChange}, received[n]? = some c →
      (received ++ ta.arriving)[n]? = some c := by
    intro n c hn
    rw [List.getElem?_append_left (List.getElem?_eq_some_iff.mp hn).1]
    exact hn
  have hfrom : ∀ {n data}, From received n data →
      From (received ++ ta.arriving) n data := by
    intro n data ⟨c, hc, hg⟩
    exact ⟨c, hkeep hc, hg⟩
  refine ⟨?_, fun n c hmem => ?_, fun n data rest hr => ?_, fun call hc => ?_⟩
  · rw [Track.step_arrivals hs, h.count, List.length_append]
  · rcases Track.step_history hs hmem with hold | ⟨c', rfl, he⟩
    · exact hkeep (h.history n c hold)
    · cases he
      simp [h.count, Track.Action.arriving]
  · rcases Track.step_running hs hr with ⟨pre, hold⟩ | ⟨rfl, c, hc, rfl⟩
    · obtain ⟨hsource, hrest⟩ := h.running n data _ hold
      exact ⟨hfrom hsource, fun p hp => hrest p (List.mem_append_right _ hp)⟩
    · exact ⟨⟨c, hkeep (h.history n c hc), rfl⟩, fun p hp => hp⟩
  · rcases Track.step_writes hs hc with hold | ⟨rest, hr⟩
    · exact h.writes call hold
    · exact (h.running _ _ _ hr).2 call.writer List.mem_cons_self

theorem traced_bridge {b b' : Bridge} {a : DDSBridge.Action} {received : ParticipantId → List CacheChange}
    (h : ∀ id, Traced (db.writersExceptOne id) (received id) (b.tracks id))
    (hs : DDSBridge.step db b a = some b') (id : ParticipantId) :
    Traced (db.writersExceptOne id) (receive received a id) (b'.tracks id) := by
  rcases tracks_cases hs id with ⟨hsame, hno⟩ | ⟨ta, w, ht, ha⟩
  · rw [hsame, receive_other hno]
    exact h id
  · have hstep := traced_step (h id) ht
    cases ta with
    | arrive c =>
      rw [(ha c).mp rfl, receive_arrive]
      exact hstep
    | callback | enable | disable | control | start | transmit =>
      rw [receive_other fun c hc => absurd ((ha c).mpr hc) (by simp)]
      simpa [Track.Action.arriving] using hstep

theorem callOf_some {b : Bridge} {a : DDSBridge.Action} {id p : ParticipantId} {n : Nat} {data : DataReceived}
    (h : callOf b a = some (id, p, n, data)) : ∃ rest, .write n data (p :: rest) ∈ (b.tracks id).running := by
  unfold callOf at h
  split at h
  · split at h
    · rename_i i found n' data' p' rest hr
      cases h
      exact ⟨rest, mem_of_at hr⟩
    · cases h
  · cases h

theorem tagged_receive {received : ParticipantId → List CacheChange} {e : Sending} (h : Tagged db received e)
    (a : DDSBridge.Action) : Tagged db (receive received a) e :=
  ⟨h.writer, from_receive h.source a, h.writerGuid, h.origin, h.through⟩

theorem fit_update {writers : ParticipantId → IWriter} {p : ParticipantId} {w : IWriter}
    (h : ∀ id, (writers id).Fit (participant db id)) (hw : w.Fit (participant db p)) (q : ParticipantId) :
    (Function.update writers p w q).Fit (participant db q) := by
  by_cases hq : q = p
  · subst hq
    rw [Function.update_self]
    exact hw
  · rw [Function.update_of_ne hq]
    exact h q

/-- A write through the interface tags the change that it sends, whatever
change it was given. -/
theorem inv_offer {id p : ParticipantId} {n : Nat} {data : RouterData} {o : WriteOutcome} (h : Inv db s)
    (hp : p ∈ db.writersExceptOne id) (hsource : From (s.received id) n data.toDataReceived)
    (hs : offer s id p n data o = some s') : Inv db s' := by
  simp only [offer, Option.map_eq_some_iff] at hs
  obtain ⟨⟨r, w'⟩, hw, rfl⟩ := hs
  obtain ⟨hfit', hcase⟩ := IWriter.write_cases (h.fit p) hw
  refine ⟨fit_update h.fit hfit', h.traced, fun e he => ?_⟩
  · rcases hcase with ⟨-, -, hadded, -⟩ | ⟨cw, c, cw', hcw, hsent, rfl, rfl⟩
    · simp only [hadded] at he
      exact h.sent e he
    · obtain ⟨-, -, hguid, hrep, -⟩ := IWriter.writerFor_cases (h.fit p) hcw
      have hinner : ((s.writers p).put data.writerQos cw').inner data.writerQos = some cw' := by
        rw [IWriter.inner_put]
        cases s.writers p <;> simp [IWriter.shares]
      simp only [hinner, List.mem_append, List.mem_singleton] at he
      rcases he with he | rfl
      · exact h.sent e he
      · refine ⟨hp, hsource, ?_, ?_, ?_⟩
        · rw [hsent.writerGuid]
          exact hguid
        · rw [hsent.origin, hrep]
          rfl
        · rw [hsent.repeater, hrep]
          rfl

theorem inv_step {a : Action} (h : Inv db s) (hs : step db s a = some s') : Inv db s' := by
  cases a with
  | removeChange id qos i =>
    cases hs
    exact ⟨fit_update h.fit (IWriter.fit_removeChange (h.fit id) qos i), h.traced, h.sent⟩
  | bridge a qos o =>
    simp only [step, Option.bind_eq_some_iff] at hs
    obtain ⟨b, hb, hs⟩ := hs
    have hinv : Inv db { s with
        bridge := b
        writers := fun id => if b.writers id then (s.writers id).enable else (s.writers id).disable
        received := receive s.received a } := by
      refine ⟨fun id => ?_, traced_bridge h.traced hb, fun e he => tagged_receive (h.sent e he) a⟩
      change IWriter.Fit _ (if b.writers id then _ else _)
      split
      · exact IWriter.fit_enable (h.fit id)
      · exact IWriter.fit_disable (h.fit id)
    cases hc : callOf s.bridge a with
    | none =>
      rw [hc] at hs
      cases hs
      exact hinv
    | some call =>
      obtain ⟨id, p, n, data⟩ := call
      rw [hc] at hs
      obtain ⟨rest, hr⟩ := callOf_some hc
      obtain ⟨hsource, hrest⟩ := (h.traced id).running n data _ hr
      exact inv_offer hinv (hrest p List.mem_cons_self) (from_receive hsource a) hs

theorem inv_create (db : ParticipantsDatabase) (entityId : ParticipantId → EntityId) : Inv db (create db entityId) := by
  refine ⟨fun id => IWriter.fit_createWriter _ _ _, fun id => ⟨rfl, ?_, ?_, ?_⟩, ?_⟩
  all_goals simp [create, DDSBridge.create, Track.init]

/-- The filter of a repeater lets a change neither back to its source nor to the
participant that sends it. -/
theorem repeaterIsRelevant_false {c : WriterChange} {g : GuidPrefix} {reader : Guid}
    (ho : c.lastWriterGuidPrefix = some g)
    (h : reader.guidPrefix = g ∨ reader.guidPrefix = c.writerGuid.guidPrefix) :
    repeaterIsRelevant c reader = some false := by
  unfold repeaterIsRelevant selfIsRelevant
  rcases h with h | h
  · split
    · rfl
    · simp [ho, h]
  · simp [h]

end Steps

/-- In every run of a bridge, a track offers a sample to the writer of its own
participant only if that is a repeater. A change that the own writer sends has
the prefix of the writer that the sample was received from, and the filter judges
it irrelevant for every reader with that prefix and for every reader of the own
participant. -/
theorem no_echo (db : ParticipantsDatabase) (entityId : ParticipantId → EntityId) (as : List Action) (s : State)
    (hrun : run (step db) (create db entityId) as = some s) :
    (∀ id, ∀ call ∈ (s.bridge.tracks id).log.writes, call.writer = id → db.isRepeater id = true) ∧
      ∀ e ∈ s.sent, e.writer = e.track →
        ∃ c, (s.received e.track)[e.n]? = some c ∧
          e.change.lastWriterGuidPrefix = some c.writerGuid.guidPrefix ∧
          ∀ reader : Guid,
            reader.guidPrefix = c.writerGuid.guidPrefix ∨
              reader.guidPrefix = (participant db e.track).guidPrefix →
            e.through.isRelevant e.change reader = some false := by
  have hinv : Inv db s := run_invariant (fun _ _ _ hI hs => inv_step hI hs) (inv_create db entityId) hrun
  refine ⟨fun id call hc hown => ?_, fun e he hown => ?_⟩
  · have hmem := (hinv.traced id).writes call hc
    rw [hown] at hmem
    exact mem_writersExceptOne_self hmem
  · have htag := hinv.sent e he
    have hrep : db.isRepeater e.track = true := by
      have hmem := htag.writer
      rw [hown] at hmem
      exact mem_writersExceptOne_self hmem
    obtain ⟨c, hc, hguid⟩ := htag.source
    have horigin : e.change.lastWriterGuidPrefix = some c.writerGuid.guidPrefix := by
      rw [htag.origin, hown, hrep, if_pos rfl, hguid]
    refine ⟨c, hc, horigin, fun reader hreader => ?_⟩
    have hthrough : e.through.repeater = true := by rw [htag.through, hown, hrep]
    rw [CommonWriter.isRelevant, if_pos hthrough]
    apply repeaterIsRelevant_false horigin
    rw [htag.writerGuid, hown]
    exact hreader

/-! A repeater alone in the router: two samples from two sources; the change of
the first is used again for the second. -/

def repeaterReader : Reader :=
  { participantId := ⟨"r"⟩
    guid := ⟨7, 1⟩
    topic := { topicName := "t", typeName := "T" } }

def oneRepeater : ParticipantsDatabase where
  ids := [⟨"r"⟩]
  nodup := by simp
  isRepeater _ := true
  createReader _ := repeaterReader

def sampleFrom (g : GuidPrefix) : CacheChange :=
  { writerGuid := ⟨g, 1⟩, sequenceNumber := 1, length := 4, maxSize := 4 }

def plain (a : DDSBridge.Action) : Action := .bridge a {} {}

/-- A sample arrives and goes out again. -/
def throughRepeater (g : GuidPrefix) (change : NewChange) : List Action :=
  List.flatten
    [[.track ⟨"r"⟩ (.arrive (sampleFrom g))].map plain,
      (List.replicate 4 (.track ⟨"r"⟩ (.callback 0))).map plain,
      [plain (.track ⟨"r"⟩ .start)],
      (List.replicate 4 (.track ⟨"r"⟩ (.transmit 0 true))).map plain,
      [.bridge (.track ⟨"r"⟩ (.transmit 0 true)) {} { change := change }],
      (List.replicate 6 (.track ⟨"r"⟩ (.transmit 0 true))).map plain]

def twoSources : List Action :=
  List.flatten
    [(.enable :: List.replicate 6 .walk).map plain, throughRepeater 3 .created, throughRepeater 4 (.recycled 0)]

theorem no_echo_of_recycled :
    ∃ s e, run (step oneRepeater) (create oneRepeater fun _ => 2) twoSources = some s ∧ e ∈ s.sent ∧
      e.writer = e.track ∧ e.n = 1 ∧ e.change.lastWriterGuidPrefix = some 4 ∧
      ∀ entity, e.through.isRelevant e.change ⟨4, entity⟩ = some false := by
  have hrun : ∃ s e, run (step oneRepeater) (create oneRepeater fun _ => 2) twoSources = some s ∧
      s.sent[1]? = some e ∧ e.writer = e.track ∧ e.n = 1 ∧
      (s.received e.track)[1]? = some (sampleFrom 4) := ⟨_, _, rfl, rfl, rfl, rfl, rfl⟩
  obtain ⟨s, e, hrun, hget, hown, hn, hreceived⟩ := hrun
  have he : e ∈ s.sent := List.mem_of_getElem? hget
  obtain ⟨c, hc, horigin, hirrelevant⟩ := (no_echo oneRepeater (fun _ => 2) twoSources s hrun).2 e he hown
  rw [hn, hreceived, Option.some.injEq] at hc
  subst hc
  exact ⟨s, e, hrun, he, hown, hn, horigin, fun entity => hirrelevant ⟨4, entity⟩ (.inl rfl)⟩

end DDSRouter.Repeater
