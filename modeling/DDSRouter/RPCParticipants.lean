import DDSRouter.RPCServers
import DDSRouter.RPCTasks

/-!
# Participants that a service bridge comes across

The bridge gets to know participants from three sides: servers are discovered by
a participant, samples come from the reader of a participant, and a registry
gives back the participant that a request came from. All of them are RTPS
participants of the router. Before the initialisation no task is queued or runs,
for readers report to an enabled bridge only.
-/
namespace DDSRouter.RPC

open Runs Threads WeakOrder

/-- The participants that a task has still to look up. -/
def within (db : Participants) : TransmitPc → Prop
  | .fanOut _ data _ rest => data.participantReceiver ∈ db.ids ∧ ∀ q ∈ rest, q ∈ db.ids
  | .send _ data _ id rest => data.participantReceiver ∈ db.ids ∧ id ∈ db.ids ∧ ∀ q ∈ rest, q ∈ db.ids
  | .reply _ entry => entry.1 ∈ db.ids
  | .lock | .test | .take | .lookup _ | .erase _ | .release => True

/-- The readers that the holder of `mutex_` has still to deal with. -/
def pending : ControlPc → List ReaderKey
  | .enReaders rest | .disReaders rest => rest
  | .enReport key rest => key :: rest
  | .idle | .disWait => []

/-- Every participant that the bridge has to do with is an RTPS participant, and
nothing but servers is there before the initialisation. -/
structure Reached (db : Participants) (s : State) : Prop where
  enabled : s.bridge.enabled = true → s.bridge.init = true
  registries : ∀ q, s.bridge.serviceRegistries.contains q = true → q ∈ db.ids
  entries : ∀ q k e, s.bridge.entry q k = some e → e.1 ∈ db.ids
  readers : ∀ key, (s.reader key).participantId = key.2
  control : s.control ≠ .idle → s.bridge.init = true
  pending : ∀ key ∈ pending s.control, key.2 ∈ db.ids
  queued : ∀ key ∈ s.queued, s.bridge.init = true ∧ key.2 ∈ db.ids
  running : ∀ t ∈ s.running, s.bridge.init = true ∧ t.key.2 ∈ db.ids ∧ within db t.pc

section Reached

variable {db : Participants} {s s' : State}

theorem contains_of_initNts {created : ParticipantId → Creation} {ids : List ParticipantId} {b : RPCBridge}
    {q : ParticipantId} (h : (RPCBridge.initNts created ids b).1.serviceRegistries.contains q = true) :
    q ∈ ids ∨ b.serviceRegistries.contains q = true := by
  have hset : ∀ {b : RPCBridge} {id : ParticipantId} {rest : List ParticipantId} {r : ServiceRegistry},
      (b.serviceRegistries.set id r).contains q = true → q ∈ id :: rest ∨ b.serviceRegistries.contains q = true := by
    intro b id rest r hq
    rw [OrdMap.contains_set, Bool.or_eq_true, same_iff_eq] at hq
    rcases hq with rfl | hq
    · exact .inl List.mem_cons_self
    · exact .inr hq
  induction ids generalizing b with
  | nil => exact .inr h
  | cons id rest ih =>
    unfold RPCBridge.initNts at h
    split at h
    · exact .inr h
    · exact hset h
    · rcases ih h with hq | hq
      · exact .inl (List.mem_cons_of_mem _ hq)
      · exact hset hq

theorem contains_of_enable {created : ParticipantId → Creation} {ids : List ParticipantId} {b : RPCBridge}
    {q : ParticipantId} (h : (b.enable created ids).serviceRegistries.contains q = true) :
    q ∈ ids ∨ b.serviceRegistries.contains q = true := by
  obtain he | ⟨-, he⟩ | ⟨-, -, he⟩ | ⟨-, -, he⟩ := RPCBridge.enable_cases created ids b
  · exact .inr (he ▸ h)
  · exact .inr (by rwa [he] at h)
  · rw [he] at h
    exact contains_of_initNts h
  · rw [he] at h
    exact contains_of_initNts h

theorem init_of_enable {created : ParticipantId → Creation} {ids : List ParticipantId} {b : RPCBridge}
    (hb : b.enabled = true → b.init = true) (h : (b.enable created ids).enabled = true) :
    (b.enable created ids).init = true := by
  obtain he | ⟨hi, he⟩ | ⟨-, hok, he⟩ | ⟨hi, -, he⟩ := RPCBridge.enable_cases created ids b
  · rw [he] at h ⊢
    exact hb h
  · rw [he]
    exact hi
  · rw [he]
    exact (RPCBridge.initNts_init created ids b).trans (by rw [hok, Bool.or_true])
  · rw [he, RPCBridge.initNts_enabled] at h
    simp [hb h] at hi

/-- What the actions of others than the tasks keep of the bridge. -/
theorem reached_bridge {a : Action} (h : Reached db s) (hm : BridgeMove db s.bridge a s'.bridge) :
    (s'.bridge.enabled = true → s'.bridge.init = true) ∧
      (∀ q, s'.bridge.serviceRegistries.contains q = true → q ∈ db.ids) ∧
      ∀ q k e, s'.bridge.entry q k = some e → e.1 ∈ db.ids := by
  generalize s'.bridge = b' at hm ⊢
  cases hm with
  | keep => exact ⟨h.enabled, h.registries, h.entries⟩
  | removed id g => exact ⟨h.enabled, h.registries, h.entries⟩
  | disable => exact ⟨fun he => by simp [RPCBridge.disable] at he, h.registries, h.entries⟩
  | discovered id g hid =>
    refine ⟨?_, ?_, ?_⟩
    · rw [RPCBridge.discoveredService_enabled, RPCBridge.discoveredService_init]
      exact h.enabled
    · intro q hq
      rw [RPCBridge.contains_discoveredService] at hq
      exact h.registries q hq
    · intro q k e he
      rw [RPCBridge.entry_discoveredService] at he
      exact h.entries q k e he
  | enable created =>
    refine ⟨init_of_enable h.enabled, ?_, ?_⟩
    · intro q hq
      exact (contains_of_enable hq).elim id (h.registries q)
    · exact fun q k e he => h.entries q k e (RPCBridge.entry_of_enable he)

/-- A step in which no task moves, with what it does to the readers in work. -/
theorem reached_outer {a : Action} (h : Reached db s) (ho : Outer db s a s')
    (hc : s'.control ≠ .idle → s'.bridge.init = true) (hp : ∀ key ∈ pending s'.control, key.2 ∈ db.ids)
    (hq : ∀ key ∈ s'.queued, key ∈ s.queued ∨ key.2 ∈ db.ids) : Reached db s' := by
  obtain ⟨hen, hreg, hent⟩ := reached_bridge h ho.bridge
  have hinit : s.bridge.init = true → s'.bridge.init = true := init_move ho.bridge
  constructor
  · exact hen
  · exact hreg
  · exact hent
  · intro key
    rw [ho.reader key]
    exact h.readers key
  · exact hc
  · exact hp
  · intro key hk
    refine ⟨?_, ?_⟩
    · rcases ho.queued key hk with hold | hon
      · exact hinit (h.queued key hold).1
      · exact hinit (h.enabled hon)
    · rcases hq key hk with hold | hid
      · exact (h.queued key hold).2
      · exact hid
  · intro t ht
    rcases ho.running t ht with hold | ⟨hpc, hk⟩
    · obtain ⟨hi, hid, hw⟩ := h.running t hold
      exact ⟨hinit hi, hid, hw⟩
    · obtain ⟨hi, hid⟩ := h.queued t.key hk
      exact ⟨hinit hi, hid, by rw [hpc]; trivial⟩

theorem queued_dataAvailable {key k : ReaderKey} (hk : k ∈ (s.dataAvailable key).queued) :
    k ∈ s.queued ∨ k = key := by
  unfold State.dataAvailable at hk
  split at hk
  · rcases List.mem_append.mp hk with hk | hk
    · exact .inl hk
    · exact .inr (List.mem_singleton.mp hk)
  · exact .inl hk

theorem control_dataAvailable (s : State) (key : ReaderKey) : (s.dataAvailable key).control = s.control := by
  unfold State.dataAvailable
  split <;> rfl

theorem bridge_dataAvailable (s : State) (key : ReaderKey) : (s.dataAvailable key).bridge = s.bridge := by
  unfold State.dataAvailable
  split <;> rfl

theorem arrive_frame (s : State) (key : ReaderKey) (c : CacheChange) :
    (arrive s key c).control = s.control ∧ (arrive s key c).bridge = s.bridge := by
  unfold arrive
  simp only
  split
  · exact ⟨control_dataAvailable _ key, bridge_dataAvailable _ key⟩
  · exact ⟨rfl, rfl⟩

theorem reached_arrive (h : Reached db s) {key : ReaderKey} (c : CacheChange) (hid : key.2 ∈ db.ids) :
    Reached db (arrive s key c) := by
  have hframe := arrive_frame s key c
  refine reached_outer h (outer_arrive (a := .arrive key c) key c) ?_ ?_ ?_
  · rw [hframe.1, hframe.2]
    exact h.control
  · rw [hframe.1]
    exact h.pending
  · intro k hk
    unfold arrive at hk
    simp only at hk
    split at hk
    · rcases queued_dataAvailable hk with hold | rfl
      · exact .inl hold
      · exact .inr hid
    · exact .inl hk

/-- The holder of `mutex_` works through readers of RTPS participants. -/
theorem reached_control (h : Reached db s) (hs : controlStep db s s.control = some s') : Reached db s' := by
  have ho := outer_control hs
  have hinit := h.control
  have hpend := h.pending
  cases controlStep_move hs with
  | enReader key rest hc =>
    rw [hc] at hinit hpend
    refine reached_outer h ho (fun _ => hinit (by simp)) ?_ fun _ => .inl
    intro k hk
    apply hpend k
    simp only at hk
    split at hk
    · exact hk
    · exact List.mem_cons_of_mem _ hk
  | enReport key rest hc =>
    rw [hc] at hinit hpend
    refine reached_outer h ho ?_ (fun k hk => hpend k (List.mem_cons_of_mem _ hk)) ?_
    · intro _
      simpa only [bridge_dataAvailable] using hinit (by simp)
    · intro k hk
      rcases queued_dataAvailable hk with hold | rfl
      · exact .inl hold
      · exact .inr (hpend k List.mem_cons_self)
  | disWait hc =>
    rw [hc] at hinit
    exact reached_outer h ho (fun _ => hinit (by simp)) (fun k hk => mem_requestThenReply.mp hk) fun _ => .inl
  | disReader key rest hc =>
    rw [hc] at hinit hpend
    exact reached_outer h ho (fun _ => hinit (by simp)) (fun k hk => hpend k (List.mem_cons_of_mem _ hk)) fun _ => .inl
  | enDone | disDone =>
    exact reached_outer h ho (fun hne => absurd rfl hne) (fun _ hk => absurd hk List.not_mem_nil) fun _ => .inl

theorem reached_disable (h : Reached db s) (a : Action) (n : Nat) :
    Reached db { s.disable with disableCalls := n } := by
  have ho : Outer db s a { s.disable with disableCalls := n } := outer_disable a n
  unfold State.disable at ho ⊢
  split at ho
  · rename_i hon
    rw [if_pos hon]
    exact reached_outer h ho (fun _ => h.enabled hon) (fun _ hk => absurd hk List.not_mem_nil) fun _ => .inl
  · rename_i hoff
    rw [if_neg hoff]
    exact reached_outer h ho h.control h.pending fun _ => .inl

/-- A task moves in a bridge that stays as it is, up to the contents of a registry. -/
theorem transmitMove_bridge {key : ReaderKey} {pc : TransmitPc} {x : Option TransmitPc}
    (hm : TransmitMove db s key pc s' x) :
    s'.bridge.init = s.bridge.init ∧
      ∀ q, s'.bridge.serviceRegistries.contains q = s.bridge.serviceRegistries.contains q := by
  cases hm with
  | send n data identity id rest sent =>
    cases sent with
    | none => exact ⟨rfl, fun _ => rfl⟩
    | some k => exact ⟨RPCBridge.mapRegistry_init _ _ _, fun q => RPCBridge.contains_mapRegistry _ _ q _⟩
  | erase idx => exact ⟨RPCBridge.mapRegistry_init _ _ _, fun q => RPCBridge.contains_mapRegistry _ _ q _⟩
  | lock | leave | stay | notTaken | request | response | sentAll | skip | choose | known | unknown | reply | release =>
    exact ⟨rfl, fun _ => rfl⟩

/-- A task does not move a reader to another participant. -/
theorem transmitMove_participantId {key : ReaderKey} {pc : TransmitPc} {x : Option TransmitPc}
    (hm : TransmitMove db s key pc s' x) (k : ReaderKey) :
    (s'.reader k).participantId = (s.reader k).participantId := by
  obtain ⟨-, -, -, ⟨-, -, rfl⟩ | ⟨-, -, hother, history, hkey⟩⟩ := transmitMove_flags hm
  · rw [reader_setEmitted]
  · by_cases hk : k = key
    · rw [hk, hkey]
    · rw [hother k hk]

/-- What a move of a task has to show for itself: the entries, and its next point. -/
theorem reached_task {i : Nat} {t : Task} {s₁ : State} {x : Option TransmitPc} (h : Reached db s)
    (ht : s.running[i]? = some t) (hm : TransmitMove db s t.key t.pc s₁ x)
    (hent : ∀ q k e, s₁.bridge.entry q k = some e → e.1 ∈ db.ids) (hx : ∀ pc, x = some pc → within db pc) :
    Reached db { s₁ with running := advance s.running i (x.map (Task.mk t.key)) } := by
  obtain ⟨hinit, hreg⟩ := transmitMove_bridge hm
  obtain ⟨hqueued, hon, hcontrol, -⟩ := transmitMove_flags hm
  have hthis := h.running t (mem_of_at ht)
  constructor
  · rw [hon, hinit]
    exact h.enabled
  · intro q hq
    rw [hreg] at hq
    exact h.registries q hq
  · exact hent
  · exact fun key => (transmitMove_participantId hm key).trans (h.readers key)
  · rw [hcontrol, hinit]
    exact h.control
  · rw [hcontrol]
    exact h.pending
  · rw [hqueued, hinit]
    exact h.queued
  · intro t' ht'
    rw [hinit]
    rcases mem_advance ht' with hold | hnew
    · exact h.running t' hold
    · obtain ⟨pc, hpc, rfl⟩ := Option.map_eq_some_iff.mp hnew
      exact ⟨hthis.1, hthis.2.1, hx pc hpc⟩

/-- The participants of the next point come from the reader, from the registries and
from the point before. -/
theorem within_move {key : ReaderKey} {pc pc' : TransmitPc} (h : Reached db s) (hid : key.2 ∈ db.ids)
    (hpc : within db pc) (hm : TransmitMove db s key pc s' (some pc')) : within db pc' := by
  have hreceiver : ∀ c, ((s.reader key).fillReceivedData c).participantReceiver ∈ db.ids := by
    intro c
    have hreader : (s.reader key).participantId ∈ db.ids := (h.readers key).symm ▸ hid
    exact hreader
  cases hm with
  | lock | stay | notTaken | sentAll | unknown | erase | release => trivial
  | request n c history next hto hnext =>
    rcases hnext with rfl | rfl
    · trivial
    · exact ⟨hreceiver c, fun q hq => h.registries q (OrdMap.contains_of_mem_keys hq)⟩
  | response c history next hto hnext => rcases hnext with rfl | rfl <;> trivial
  | skip n data identity id rest => exact ⟨hpc.1, fun q hq => hpc.2 q (List.mem_cons_of_mem _ hq)⟩
  | choose n data identity id rest he =>
    exact ⟨hpc.1, hpc.2 id List.mem_cons_self, fun q hq => hpc.2 q (List.mem_cons_of_mem _ hq)⟩
  | send n data identity id rest sent => exact ⟨hpc.1, hpc.2.2⟩
  | known data r entry hr hf hv =>
    have hentry : s.bridge.entry (s.reader key).participantId data.sampleIdentity.sequenceNumber = some entry := by
      simp [RPCBridge.entry, hr, hf]
    exact h.entries _ _ entry hentry
  | reply data entry ok next hnext =>
    rw [hnext]
    cases ok <;> trivial

/-- An entry that a task adds names the participant that received the request. -/
theorem entries_move {key : ReaderKey} {pc : TransmitPc} {x : Option TransmitPc} (h : Reached db s)
    (hpc : within db pc) (hm : TransmitMove db s key pc s' x) (q : ParticipantId) (k : SequenceNumber)
    (e : ParticipantId × SampleIdentity) (he : s'.bridge.entry q k = some e) : e.1 ∈ db.ids := by
  cases hm with
  | send n data identity id rest sent =>
    cases sent with
    | none => exact h.entries q k e he
    | some idx =>
      rcases RPCBridge.entry_of_add he with hold | ⟨-, -, rfl⟩
      · exact h.entries q k e hold
      · exact hpc.1
  | erase idx => exact h.entries q k e (RPCBridge.entry_of_erase he)
  | lock | leave | stay | notTaken | request | response | sentAll | skip | choose | known | unknown | reply | release =>
    exact h.entries q k e he

theorem reached_transmit {i : Nat} {t : Task} {s₁ : State} {x : Option TransmitPc} (h : Reached db s)
    (ht : s.running[i]? = some t) (hm : TransmitMove db s t.key t.pc s₁ x) :
    Reached db { s₁ with running := advance s.running i (x.map (Task.mk t.key)) } := by
  obtain ⟨-, hid, hpc⟩ := h.running t (mem_of_at ht)
  apply reached_task h ht hm (entries_move h hpc hm)
  rintro pc rfl
  exact within_move h hid hpc hm

theorem reached_step {a : Action} (h : Reached db s) (hs : step db s a = some s') : Reached db s' := by
  cases a with
  | transmit i o =>
    obtain ⟨t, s₁, x, ht, hm, rfl⟩ := step_transmit_inv hs
    exact reached_transmit h ht hm
  | arrive key c =>
    simp only [step] at hs
    split at hs
    · rename_i hgo
      cases hs
      simp only [Bool.and_eq_true, decide_eq_true_eq] at hgo
      exact reached_arrive h c hgo.2
    · cases hs
  | control => exact reached_control h hs
  | discovered id g =>
    have ho := step_outer hs (by simp)
    simp only [step] at hs
    split at hs
    · cases hs
      refine reached_outer h ho ?_ h.pending fun _ => .inl
      rw [RPCBridge.discoveredService_init]
      exact h.control
    · cases hs
  | removed id g =>
    have ho := step_outer hs (by simp)
    simp only [step] at hs
    split at hs
    · cases hs
      exact reached_outer h ho h.control h.pending fun _ => .inl
    · cases hs
  | enable created =>
    have ho := step_outer hs (by simp)
    simp only [step] at hs
    split at hs
    · cases hs
      refine reached_outer h ho ?_ ?_ fun _ => .inl
      · intro hne
        simp only at hne ⊢
        split at hne
        · rename_i hon
          simp only [Bool.and_eq_true] at hon
          exact init_of_enable h.enabled hon.2
        · exact absurd rfl hne
      · intro key hk
        simp only at hk
        split at hk
        · exact mem_replyThenRequest.mp hk
        · exact absurd hk List.not_mem_nil
    · cases hs
  | disable =>
    simp only [step] at hs
    split at hs
    · cases hs
      exact reached_disable h .disable s.disable.disableCalls
    · cases hs
  | disableCall =>
    simp only [step] at hs
    split at hs
    · cases hs
      exact reached_disable h .disableCall _
    · cases hs
  | start i =>
    have ho := step_outer hs (by simp)
    simp only [step, Option.map_eq_some_iff] at hs
    obtain ⟨key, -, rfl⟩ := hs
    exact reached_outer h ho h.control h.pending fun k hk => .inl (List.mem_of_mem_eraseIdx hk)

/-- No step but `enable` initialises the bridge or creates a registry. -/
theorem bridge_step {a : Action} (hs : step db s a = some s') (ha : ∀ created, a ≠ .enable created) :
    s'.bridge.init = s.bridge.init ∧
      ∀ q, s'.bridge.serviceRegistries.contains q = s.bridge.serviceRegistries.contains q := by
  have hmove : ∀ {b b' : RPCBridge}, BridgeMove db b a b' →
      b'.init = b.init ∧ ∀ q, b'.serviceRegistries.contains q = b.serviceRegistries.contains q := by
    intro b b' hm
    cases hm with
    | keep | removed | disable => exact ⟨rfl, fun _ => rfl⟩
    | discovered id g hid =>
      exact ⟨RPCBridge.discoveredService_init b id g, fun q => RPCBridge.contains_discoveredService b id q g⟩
    | enable created => exact absurd rfl (ha created)
  by_cases ht : ∃ i o, a = .transmit i o
  · obtain ⟨i, o, rfl⟩ := ht
    obtain ⟨t, s₁, x, -, hm, rfl⟩ := step_transmit_inv hs
    have hb := transmitMove_bridge hm
    exact hb
  · exact hmove (step_outer hs fun i o h => ht ⟨i, o, h⟩).bridge

/-- Another state of the readers is no matter, as long as they stay where they are. -/
theorem reached_slots (h : Reached db s) {slots : ReaderKey → Slot}
    (hr : ∀ key, (slots key).reader.participantId = key.2) : Reached db { s with slots := slots } :=
  ⟨h.enabled, h.registries, h.entries, hr, h.control, h.pending, h.queued, h.running⟩

theorem reached_create (db : Participants) (topic : RPCTopic) : Reached db (create db topic) := by
  constructor <;> simp [create, createReader, State.reader, RPCBridge.entry, OrdMap.contains, pending]

end Reached

end DDSRouter.RPC
