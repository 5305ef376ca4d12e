import DDSRouter.SpecificQos

/-!
# Endpoints that are announced again

A new endpoint is copied into the discovery database; one that is there already
is assigned to, by an operator that leaves the specific QoS of the entry as it
was. A reader that looks up the writer of a sample then finds the QoS that was
announced first.
-/
namespace DDSRouter.EndpointUpdates

open Runs WeakOrder SpecificQos

section Faithful

variable {db db' : DiscoveryDatabase} {e : Endpoint} {ev : Option DiscoveryEvent}

/-- What the database holds for the guid of the endpoint after the operation. -/
def stored (db : DiscoveryDatabase) (e : Endpoint) : Endpoint :=
  match db.getEndpoint e.guid with
  | some old => old.assign e
  | none => e

theorem addEndpoint_cases (h : db.addEndpoint e = some (db', ev)) :
    (∀ old, db.getEndpoint e.guid = some old → old.active = false) ∧ db' = ⟨db.entities.set e.guid (stored db e)⟩ := by
  unfold DiscoveryDatabase.addEndpoint at h
  unfold stored DiscoveryDatabase.getEndpoint
  split at h
  · rename_i old hold
    rw [hold]
    split at h
    · cases h
    · rename_i hact
      cases h
      refine ⟨fun old' hold' => ?_, rfl⟩
      cases hold'
      simpa using hact
  · rename_i hnone
    rw [hnone]
    cases h
    exact ⟨fun old hold => (by cases hold), rfl⟩

theorem updateEndpoint_cases (h : db.updateEndpoint e = some (db', ev)) :
    db.getEndpoint e.guid ≠ none ∧ db' = ⟨db.entities.set e.guid (stored db e)⟩ := by
  unfold DiscoveryDatabase.updateEndpoint at h
  unfold stored DiscoveryDatabase.getEndpoint
  split at h
  · rename_i old hold
    rw [hold]
    cases h
    exact ⟨by simp, rfl⟩
  · cases h

theorem eraseEndpoint_cases (h : db.eraseEndpoint e = some (db', ev)) : db' = ⟨db.entities.erase e.guid⟩ := by
  unfold DiscoveryDatabase.eraseEndpoint at h
  split at h
  · cases h
    rfl
  · cases h

theorem stored_eq_iff : stored db e = e ↔ ∀ old, db.getEndpoint e.guid = some old → old.specificQos = e.specificQos := by
  unfold stored
  cases hf : db.getEndpoint e.guid with
  | none => simp
  | some old =>
    simp only [Endpoint.assign, Option.some.injEq, forall_eq']
    constructor
    · intro h
      have hqos := congrArg Endpoint.specificQos h
      exact hqos
    · intro h
      rw [h]

/-- The endpoint is found as it is, and every entry with another guid as it was. -/
def Stores (db db' : DiscoveryDatabase) (e : Endpoint) : Prop :=
  db'.getEndpoint e.guid = some e ∧ ∀ g, g ≠ e.guid → db'.getEndpoint g = db.getEndpoint g

theorem stores_iff : Stores db ⟨db.entities.set e.guid (stored db e)⟩ e ↔ stored db e = e := by
  simp only [Stores, DiscoveryDatabase.getEndpoint, OrdMap.find_set, same_refl, if_true, Option.some.injEq,
    and_iff_left_iff_imp]
  intro _ g hg
  rw [if_neg (by simpa [same_iff_eq] using hg)]

/-- A successful operation with an endpoint stores it. -/
def Faithful (db : DiscoveryDatabase) : DatabaseOperation → Prop
  | .add e => ∀ db' ev, db.addEndpoint e = some (db', ev) → Stores db db' e
  | .update e => ∀ db' ev, db.updateEndpoint e = some (db', ev) → Stores db db' e
  | .erase _ => True

/-- The entry that the operation assigns to has the specific QoS of the new endpoint. -/
def KeepsQos (db : DiscoveryDatabase) : DatabaseOperation → Prop
  | .add e => ∀ old, db.getEndpoint e.guid = some old → old.active = false → old.specificQos = e.specificQos
  | .update e => ∀ old, db.getEndpoint e.guid = some old → old.specificQos = e.specificQos
  | .erase _ => True

/-- An operation that succeeds puts in what `stored` says. -/
theorem faithful_iff_keepsQos (db : DiscoveryDatabase) (op : DatabaseOperation) : Faithful db op ↔ KeepsQos db op := by
  cases op with
  | add e =>
    constructor
    · intro h old hold hact
      have hadd : db.addEndpoint e = some (⟨db.entities.set e.guid (old.assign e)⟩, none) := by
        rw [DiscoveryDatabase.getEndpoint] at hold
        simp [DiscoveryDatabase.addEndpoint, hold, hact]
      have hstores := h _ _ hadd
      rw [(addEndpoint_cases hadd).2, stores_iff, stored_eq_iff] at hstores
      exact hstores old hold
    · intro h db' ev hadd
      obtain ⟨hact, rfl⟩ := addEndpoint_cases hadd
      rw [stores_iff, stored_eq_iff]
      exact fun old hold => h old hold (hact old hold)
  | update e =>
    constructor
    · intro h old hold
      have hupdate : db.updateEndpoint e = some (⟨db.entities.set e.guid (old.assign e)⟩, some (.updated e)) := by
        rw [DiscoveryDatabase.getEndpoint] at hold
        simp [DiscoveryDatabase.updateEndpoint, hold]
      have hstores := h _ _ hupdate
      rw [(updateEndpoint_cases hupdate).2, stores_iff, stored_eq_iff] at hstores
      exact hstores old hold
    · intro h db' ev hupdate
      obtain ⟨-, rfl⟩ := updateEndpoint_cases hupdate
      rw [stores_iff, stored_eq_iff]
      exact h
  | erase e => exact Iff.rfl

end Faithful

/-! ### Sequences of operations -/

/-- The operation of the database, `none` where it throws. -/
def attempt (db : DiscoveryDatabase) : DatabaseOperation → Option (DiscoveryDatabase × Option DiscoveryEvent)
  | .add e => db.addEndpoint e
  | .update e => db.updateEndpoint e
  | .erase e => db.eraseEndpoint e

/-- The guid that the operation speaks about, and the specific QoS that it announces. -/
def announcement : DatabaseOperation → Guid × Option SpecificEndpointQoS
  | .add e => (e.guid, some e.specificQos)
  | .update e => (e.guid, some e.specificQos)
  | .erase e => (e.guid, none)

/-- The database, with the specific QoS that was announced last for each guid by an
operation that succeeded. -/
structure State where
  database : DiscoveryDatabase := {}
  announced : Guid → Option SpecificEndpointQoS := fun _ => none

/-- An operation that fails leaves everything as it is. -/
def step (s : State) (op : DatabaseOperation) : Option State :=
  match attempt s.database op with
  | some (db, _) => some ⟨db, Function.update s.announced (announcement op).1 (announcement op).2⟩
  | none => some s

/-- The queue of the database takes the same step. -/
theorem step_database {s s' : State} {op : DatabaseOperation} (h : step s op = some s') :
    s'.database = (s.database.process op).1 := by
  have hprocess : s.database.process op = (attempt s.database op).getD (s.database, none) := by
    cases op <;> rfl
  rw [hprocess]
  unfold step at h
  split at h
  · rename_i hok
    cases h
    simp [hok]
  · rename_i hfail
    cases h
    simp [hfail]

/-- A sample of a writer that is announced gets the QoS that was announced last. -/
def ReadsAnnounced (s : State) : Prop :=
  ∀ (data : DataReceived) (qos : SpecificEndpointQoS), s.announced data.sourceGuid = some qos →
    (fillWriterQos s.database data).writerQos = qos

/-- Every entry has the QoS that was announced last for its guid. -/
def Agree (s : State) : Prop := ∀ g, s.announced g = (s.database.getEndpoint g).map Endpoint.specificQos

theorem agree_step {s s' : State} {op : DatabaseOperation} (hq : KeepsQos s.database op) (h : Agree s)
    (hs : step s op = some s') : Agree s' := by
  unfold step at hs
  split at hs
  · rename_i db ev hok
    cases hs
    intro g
    have hset : ∀ e, stored s.database e = e →
        Function.update s.announced e.guid (some e.specificQos) g =
          (DiscoveryDatabase.getEndpoint ⟨s.database.entities.set e.guid (stored s.database e)⟩ g).map
            Endpoint.specificQos := by
      intro e he
      rw [he, DiscoveryDatabase.getEndpoint, OrdMap.find_set]
      by_cases hg : g = e.guid
      · simp [hg]
      · rw [Function.update_of_ne hg, if_neg (by simpa [same_iff_eq] using hg)]
        exact h g
    cases op with
    | add e =>
      obtain ⟨hact, rfl⟩ := addEndpoint_cases hok
      exact hset e (stored_eq_iff.mpr fun old hold => hq old hold (hact old hold))
    | update e =>
      obtain ⟨-, rfl⟩ := updateEndpoint_cases hok
      exact hset e (stored_eq_iff.mpr hq)
    | erase e =>
      obtain rfl := eraseEndpoint_cases hok
      simp only [announcement]
      rw [DiscoveryDatabase.getEndpoint, OrdMap.find_erase]
      by_cases hg : g = e.guid
      · simp [hg]
      · rw [Function.update_of_ne hg, if_neg (by simpa [same_iff_eq] using hg)]
        exact h g
  · cases hs
    exact h

theorem Agree.reads {s : State} (h : Agree s) : ReadsAnnounced s := by
  intro data qos hqos
  rw [h] at hqos
  obtain ⟨e, he, rfl⟩ := Option.map_eq_some_iff.mp hqos
  simp [fillWriterQos, he]

/-- Some sample of the writer. -/
def sampleOf (g : Guid) : DataReceived :=
  { length := 1, maxSize := 1, sourceGuid := g, sourceTimestamp := 0, participantReceiver := ⟨"a"⟩
    instanceHandle := 0, kind := .alive, sampleIdentity := .unknown, relatedSampleIdentity := .unknown
    originSequenceNumber := 1 }

/-- An entry that is assigned another specific QoS shows the old one to the readers. -/
theorem keepsQos_of_reads {s s' : State} {op : DatabaseOperation} (hs : step s op = some s') (h : ReadsAnnounced s') :
    KeepsQos s.database op := by
  have hread : ∀ e old, s.database.getEndpoint e.guid = some old →
      s' = ⟨⟨s.database.entities.set e.guid (old.assign e)⟩,
        Function.update s.announced e.guid (some e.specificQos)⟩ → old.specificQos = e.specificQos := by
    rintro e old hold rfl
    have hqos := h (sampleOf e.guid) e.specificQos (by simp [sampleOf])
    simpa [fillWriterQos, sampleOf, DiscoveryDatabase.getEndpoint, Endpoint.assign] using hqos
  cases op with
  | add e =>
    intro old hold hact
    refine hread e old hold ?_
    rw [DiscoveryDatabase.getEndpoint] at hold
    simp only [step, attempt, DiscoveryDatabase.addEndpoint, hold, hact, Bool.false_eq_true, if_false,
      announcement, Option.some.injEq] at hs
    exact hs.symm
  | update e =>
    intro old hold
    refine hread e old hold ?_
    rw [DiscoveryDatabase.getEndpoint] at hold
    simp only [step, attempt, DiscoveryDatabase.updateEndpoint, hold, announcement, Option.some.injEq] at hs
    exact hs.symm
  | erase e => trivial

/-- An operation is faithful, and a sequence of operations shows to the readers what was
announced last, exactly where no entry is assigned an endpoint with another specific QoS. -/
theorem updates_faithful_iff_keepsQos (db : DiscoveryDatabase) (op : DatabaseOperation) (ops : List DatabaseOperation) :
    (Faithful db op ↔ KeepsQos db op) ∧
    (Visits step ReadsAnnounced {} ops ↔ Along step (fun s op => KeepsQos s.database op) {} ops) := by
  refine ⟨faithful_iff_keepsQos db op, ?_⟩
  exact visits_iff_along (I := Agree) (fun _ h => h.reads) (fun _ _ _ hq h hs => agree_step hq h hs)
    (fun _ _ _ _ hs hr => keepsQos_of_reads hs hr) (fun _ => rfl) ops

/-! A writer that is announced with a partition, and then with another. -/

def writerIn (partition : String) : Endpoint :=
  { kind := .writer, guid := ⟨2, 1⟩, topic := { topicName := "chat", typeName := "String", topicQos := { usePartitions := true } }
    discovererParticipantId := ⟨"a"⟩
    specificQos := { partitions := [partition] } }

theorem partition_lost :
    (¬ ∀ db op, Faithful db op) ∧ ¬ ∀ ops, Visits step ReadsAnnounced {} ops := by
  constructor
  · intro h
    have hstores := (h ⟨OrdMap.empty.set ⟨2, 1⟩ (writerIn "A")⟩ (.update (writerIn "B"))) _ _ rfl
    exact absurd hstores.1 (by decide)
  · intro h
    have hrun : ∃ s, run step {} [.add (writerIn "A"), .update (writerIn "B")] = some s ∧
        s.announced ⟨2, 1⟩ = some { partitions := ["B"] } ∧
        (fillWriterQos s.database (sampleOf ⟨2, 1⟩)).writerQos ≠ { partitions := ["B"] } := ⟨_, rfl, by decide⟩
    obtain ⟨s, hrun, hann, hread⟩ := hrun
    exact hread (visits_last (h _) hrun (sampleOf ⟨2, 1⟩) _ hann)

end DDSRouter.EndpointUpdates
