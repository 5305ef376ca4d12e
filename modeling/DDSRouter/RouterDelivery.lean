import DDSRouter.Lib.Simulation
import DDSRouter.RouterBridges
import DDSRouter.TrackDelivery

/-!
# Delivery through the router

What the reader of one participant receives on a topic, and what becomes of it, over
whole runs of the router: bridges are created, enabled and disabled by operations while
samples arrive, are taken and written.
-/
namespace DDSRouter

namespace DDSBridge

open Track

/-- What a step of the bridge does to the reader of one participant. -/
def events (b : Bridge) (p : ParticipantId) : Action → List Event
  | .enable | .disable => []
  | .walk =>
    match b.walk with
    | .inside _ id _ => if id = p then Track.events (b.tracks p) .control else []
    | .idle | .next _ _ => []
  | .track id a => if id = p then Track.events (b.tracks p) a else []

/-- The samples of one participant, on the side of its reader and towards the writers. -/
structure Delivered (db : ParticipantsDatabase) (r₀ : Reader) (p : ParticipantId) (l : List Event) (b : Bridge) :
    Prop where
  sourced : Sourced r₀ (receivedOf l) (droppedOf l) (b.tracks p)
  offering : Offering (db.writersExceptOne p) (b.tracks p)

variable {db : ParticipantsDatabase} {r₀ : Reader} {p : ParticipantId} {l : List Event} {b b' : Bridge}

theorem ParticipantsDatabase.nodup_writersExceptOne (db : ParticipantsDatabase) (p : ParticipantId) :
    (db.writersExceptOne p).Nodup := by
  unfold ParticipantsDatabase.writersExceptOne
  split
  · exact db.nodup.filter _
  · exact db.nodup

theorem delivered_create (db db' : ParticipantsDatabase) (p : ParticipantId) :
    Delivered db (db'.createReader p) p [] (create db') :=
  ⟨sourced_init _, offering_init _ _⟩

/-- A step of a track, its own or that of another participant. -/
theorem delivered_track (h : Delivered db r₀ p l b) (hw : Walked db b) (hp : p ∈ db.ids) {id : ParticipantId}
    {a : Track.Action} {w : Writers} {t : Track.State} (pc : WalkPc)
    (hs : Track.step (db.writersExceptOne id) (b.writers, b.tracks id) a = some (w, t)) :
    Delivered db r₀ p (l ++ if id = p then Track.events (b.tracks p) a else [])
      { b with writers := w, tracks := Function.update b.tracks id t, walk := pc } := by
  by_cases hid : id = p
  · subst hid
    rw [if_pos rfl]
    constructor
    · simpa using sourced_step h.sourced hs
    · simpa using offering_step (db.nodup_writersExceptOne id) (hw.tidy id hp) h.offering hs
  · rw [if_neg hid, List.append_nil]
    constructor
    · simpa [Function.update_of_ne (Ne.symm hid)] using h.sourced
    · simpa [Function.update_of_ne (Ne.symm hid)] using h.offering

/-- What leaves the tracks alone. -/
theorem delivered_congr (h : Delivered db r₀ p l b) (ht : b'.tracks = b.tracks) : Delivered db r₀ p l b' :=
  ⟨ht ▸ h.sourced, ht ▸ h.offering⟩

theorem delivered_step (h : Delivered db r₀ p l b) (hw : Walked db b) (hp : p ∈ db.ids) {a : Action}
    (hs : step db b a = some b') : Delivered db r₀ p (l ++ events b p a) b' := by
  cases a with
  | enable | disable =>
    simp only [step] at hs
    split at hs
    · rw [events, List.append_nil]
      refine delivered_congr h ?_
      cases hs
      split <;> rfl
    · cases hs
  | track id a =>
    obtain ⟨-, -, w, t, ht, rfl⟩ := step_track_inv hs
    exact delivered_track h hw hp _ ht
  | walk =>
    simp only [step] at hs
    cases hwalk : b.walk with
    | idle => simp [walkStep, hwalk] at hs
    | next e rest =>
      have hevents : events b p .walk = [] := by simp [events, hwalk]
      rw [hevents, List.append_nil]
      cases rest with
      | nil =>
        simp only [walkStep, hwalk, Option.some.injEq] at hs
        subst hs
        exact delivered_congr h rfl
      | cons id rest =>
        simp only [walkStep, hwalk, Option.map_eq_some_iff] at hs
        obtain ⟨b₁, h₁, rfl⟩ := hs
        obtain ⟨w, t, ht, rfl⟩ := trackStep_some h₁
        -- the call as such does nothing to the reader
        have hquiet : (if id = p then Track.events (b.tracks p) (if e then .enable else .disable) else []) = [] := by
          cases e <;> simp [Track.events]
        have hd := delivered_track h hw hp (.inside e id rest) ht
        rwa [hquiet, List.append_nil] at hd
    | inside e id rest =>
      have hevents : events b p .walk = if id = p then Track.events (b.tracks p) .control else [] := by
        simp [events, hwalk]
      rw [hevents]
      simp only [walkStep, hwalk] at hs
      split at hs
      · rename_i hc
        have hquiet : (if id = p then Track.events (b.tracks p) .control else []) = [] := by
          split
          · rename_i hid
            simp [Track.events, ← hid, hc]
          · rfl
        cases hs
        rw [hquiet, List.append_nil]
        exact delivered_congr h rfl
      · obtain ⟨w, t, ht, rfl⟩ := trackStep_some hs
        exact delivered_track h hw hp _ ht

end DDSBridge

namespace RouterBridges

open Runs WeakOrder Track
open DDSBridge (Bridge ParticipantsDatabase Delivered)

/-- What a step of the system does to the reader of a participant on a topic. -/
def events (t : DdsTopic) (p : ParticipantId) (s : State) (a : Action) : List Event :=
  match s.bridges.find t with
  | none => []
  | some e =>
    match a with
    | .operation _ | .call => []
    | .walk => if s.inside.any (same t) then DDSBridge.events e.2 p .walk else []
    | .track u id x => if same t u then DDSBridge.events e.2 p (.track id x) else []

/-- The samples of a participant on a topic, of which there are none without a bridge. -/
structure Flowing (db : ParticipantsDatabase) (readers : DdsTopic → ParticipantId → Reader) (t : DdsTopic)
    (p : ParticipantId) (l : List Event) (s : State) : Prop where
  absent : s.bridges.find t = none → l = []
  present : ∀ e, s.bridges.find t = some e → Delivered db (readers e.1 p) p l e.2

variable {env : Router.Env} {db : ParticipantsDatabase} {readers : DdsTopic → ParticipantId → Reader} {s s' : State}
  {t : DdsTopic} {p : ParticipantId} {l : List Event}

theorem flowing_congr (h : Flowing db readers t p l s) (hb : s'.bridges = s.bridges) : Flowing db readers t p l s' :=
  ⟨hb ▸ h.absent, hb ▸ h.present⟩

/-- One bridge takes a step, maybe right after it was created. -/
theorem flowing_set {u : DdsTopic} {e : DdsTopic × Bridge} {b : Bridge} {es : List Event}
    (h : Flowing db readers t p l s) (hb : s'.bridges = s.bridges.set u (e.1, b))
    (hstep : same t u = true → Delivered db (readers e.1 p) p (l ++ es) b) (hother : same t u = false → es = []) :
    Flowing db readers t p (l ++ es) s' := by
  cases hs : same t u with
  | true =>
    have hfind : s'.bridges.find t = some (e.1, b) := by rw [hb, OrdMap.find_set, if_pos hs]
    refine ⟨fun hn => ?_, fun e' he' => ?_⟩
    · rw [hfind] at hn
      cases hn
    · rw [hfind, Option.some.injEq] at he'
      exact he' ▸ hstep hs
  | false =>
    have hfind : s'.bridges.find t = s.bridges.find t := by rw [hb, OrdMap.find_set, if_neg (by simp [hs])]
    rw [hother hs, List.append_nil]
    exact ⟨fun hn => h.absent (hfind ▸ hn), fun e' he' => h.present e' (hfind ▸ he')⟩

theorem flowing_step {a : Action} (h : Flowing db readers t p l s) (hc : Consistent db s) (hp : p ∈ db.ids)
    (hs : step env db readers s a = some s') : Flowing db readers t p (l ++ events t p s a) s' := by
  cases a with
  | operation a =>
    have hevents : events t p s (.operation a) = [] := by
      unfold events
      split <;> rfl
    rw [hevents, List.append_nil]
    simp only [step] at hs
    split at hs
    · simp only [Option.map_eq_some_iff] at hs
      obtain ⟨r, -, rfl⟩ := hs
      exact flowing_congr h rfl
    · cases hs
  | call =>
    have hevents : events t p s .call = [] := by
      unfold events
      split <;> rfl
    rw [hevents]
    simp only [step] at hs
    split at hs
    · cases hpend : s.pending with
      | nil => simp [hpend, callStep] at hs
      | cons c rest =>
        obtain ⟨u, v⟩ := c
        rw [hpend] at hs
        obtain ⟨-, -, rfl⟩ | ⟨e, b, he, hb, rfl⟩ := callStep_inv hs
        · rw [List.append_nil]
          exact flowing_congr h rfl
        · refine flowing_set (u := u) (e := e) h rfl (fun hsame => ?_) fun _ => rfl
          have hquiet : DDSBridge.events e.2 p (if v then .enable else .disable) = [] := by cases v <;> rfl
          have hold : DDSBridge.Walked db e.2 ∧ Delivered db (readers e.1 p) p l e.2 := by
            rcases he with he | ⟨hnone, -, rfl⟩
            · exact ⟨hc.walked u e he, h.present e (by rwa [OrdMap.find_congr hsame])⟩
            · rw [h.absent (by rwa [OrdMap.find_congr hsame])]
              exact ⟨DDSBridge.walked_create db _, DDSBridge.delivered_create db (forTopic db readers u) p⟩
          have hnew := DDSBridge.delivered_step hold.2 hold.1 hp hb
          rwa [hquiet] at hnew
    · cases hs
  | walk =>
    simp only [step, Option.bind_eq_some_iff, walkStep] at hs
    obtain ⟨u, hu, e, he, hs⟩ := hs
    split at hs
    · rename_i hidle
      cases hs
      have hevents : events t p s .walk = [] := by
        unfold events
        split
        · rfl
        · rename_i e' he'
          cases hsame : same t u with
          | false => simp [hu, hsame]
          | true =>
            rw [OrdMap.find_congr hsame, he, Option.some.injEq] at he'
            simp [← he', DDSBridge.events, hidle]
      rw [hevents, List.append_nil]
      exact flowing_congr h rfl
    · obtain ⟨e', b, he', hb, rfl⟩ := bridgeStep_inv hs
      rw [he, Option.some.injEq] at he'
      subst he'
      refine flowing_set (u := u) (e := e) h rfl (fun hsame => ?_) fun hsame => ?_
      · have hfind : s.bridges.find t = some e := by rwa [OrdMap.find_congr hsame]
        have hevents : events t p s .walk = DDSBridge.events e.2 p .walk := by simp [events, hfind, hu, hsame]
        rw [hevents]
        exact DDSBridge.delivered_step (h.present e hfind) (hc.walked u e he) hp hb
      · unfold events
        split
        · rfl
        · simp [hu, hsame]
  | track u id x =>
    obtain ⟨e, b, he, hb, rfl⟩ := bridgeStep_inv hs
    refine flowing_set (u := u) (e := e) h rfl (fun hsame => ?_) fun hsame => ?_
    · have hfind : s.bridges.find t = some e := by rwa [OrdMap.find_congr hsame]
      have hevents : events t p s (.track u id x) = DDSBridge.events e.2 p (.track id x) := by simp [events, hfind, hsame]
      rw [hevents]
      exact DDSBridge.delivered_step (h.present e hfind) (hc.walked u e he) hp hb
    · unfold events
      split
      · rfl
      · simp [hsame]

variable {c : Router.ReloadConfiguration} {as : List Action}

theorem flowing_run (hr : run (step env db readers) (create env c) as = some s) (hp : p ∈ db.ids) (t : DdsTopic) :
    Flowing db readers t p (trace (step env db readers) (events t p) (create env c) as) s :=
  run_traced (J := fun l s => Flowing db readers t p l s)
    (fun _ _ _ _ hpast h hs => flowing_step h (consistent_run hpast) hp hs)
    ⟨fun _ => rfl, by simp [create, OrdMap.find_empty]⟩ hr

/-- The samples that the participant receives on the topic in a run. -/
def receivedIn (t : DdsTopic) (p : ParticipantId) (as : List Action) : List CacheChange :=
  as.flatMap fun
    | .track u id x => if same t u ∧ id = p then x.arriving else []
    | .operation _ | .call | .walk => []

theorem receivedOf_events (x : Track.State) (a : Track.Action) : receivedOf (Track.events x a) = a.arriving := by
  cases a with
  | callback i => exact receivedOf_dropped _
  | control =>
    simp only [Track.events]
    split
    · exact receivedOf_dropped _
    · rfl
  | arrive | enable | disable | start | transmit => rfl

theorem receivedOf_trace (hr : run (step env db readers) s as = some s') (t : DdsTopic) (p : ParticipantId) :
    receivedOf (trace (step env db readers) (events t p) s as) = receivedIn t p as := by
  induction as generalizing s with
  | nil => rfl
  | cons a as ih =>
    obtain ⟨s₁, hs, hr⟩ := run_cons_some.mp hr
    rw [trace_cons hs, receivedOf_append, ih hr, receivedIn, receivedIn, List.flatMap_cons]
    congr 1
    unfold events
    cases a with
    | operation | call => split <;> rfl
    | walk =>
      split
      · rfl
      · simp only
        split
        · simp only [DDSBridge.events]
          split
          · split
            · exact receivedOf_events _ _
            · rfl
          · rfl
          · rfl
        · rfl
    | track u id x =>
      obtain ⟨e, b, he, hb, rfl⟩ := bridgeStep_inv hs
      simp only
      by_cases hsame : same t u = true
      · rw [OrdMap.find_congr hsame, he]
        by_cases hid : id = p
        · simp [hsame, hid, DDSBridge.events, receivedOf_events]
        · simp [hsame, hid, DDSBridge.events, receivedOf]
      · rw [if_neg (by simp [hsame])]
        split
        · rfl
        · simp [hsame, receivedOf]

/-- At every point of every run, each sample that a participant has received on a topic
is in exactly one place: it waits in the reader, or it was taken, or the listener has
refused it, which happens to the participant's own samples and on topics that are not
reliable. What was taken was forwarded as it was received and in the order in which it was
taken, unless it was not correct. The writers of the other participants were offered just
that, each sample once and in that order, up to one sample in the hand of a task. -/
theorem delivered_once_in_order (hr : run (step env db readers) (create env c) as = some s) {e : DdsTopic × Bridge}
    (he : s.bridges.find t = some e) (hp : p ∈ db.ids) :
    let x := e.2.tracks p
    let dropped := droppedOf (trace (step env db readers) (events t p) (create env c) as)
    (x.reader.numbers ++ (x.log.taken ++ dropped)).Perm (List.range (receivedIn t p as).length) ∧
      (∀ n ∈ dropped, ∃ d, (receivedIn t p as)[n]? = some d ∧
        ((readers e.1 p).comeFromThisParticipant d = true ∨ (readers e.1 p).topic.topicQos.isReliable = false)) ∧
      x.log.forwarded = x.log.taken.reverse.filterMap (forwards (readers e.1 p) (receivedIn t p as)) ∧
      ∀ q ∈ db.writersExceptOne p, x.offers q ++ x.inHand q = x.log.forwarded ∧ (x.inHand q).length ≤ 1 := by
  have h := (flowing_run hr hp t).present e he
  have htidy := ((consistent_run hr).walked t e he).tidy p hp
  have hs := h.sourced
  rw [receivedOf_trace hr] at hs
  exact ⟨hs.places, hs.refused, hs.forwarded, fun q hq => ⟨h.offering.offers q hq, inHand_length_le htidy q⟩⟩

/-- The participant hears a sample of its own, and then two of another, of which the
history puts the second in front. -/
def ownAndOthers : List Action :=
  chatDiscovered ++ inChat ([.arrive { DDSBridge.change with writerGuid := ⟨1, 3⟩ }, .callback 0,
    .arrive DDSBridge.change, .arrive { DDSBridge.change with place := 1 }, .callback 0, .callback 0, .callback 0,
    .callback 0, .callback 0, .callback 0, .start] ++ List.replicate 10 (.transmit 0 true))

theorem others_delivered_once :
    ∃ s e, run chatStep (create Router.plainEnv {}) ownAndOthers = some s ∧ s.bridges.find Router.chat = some e ∧
      droppedOf (trace chatStep (events Router.chat ⟨"a"⟩) (create Router.plainEnv {}) ownAndOthers) = [0] ∧
      (e.2.tracks ⟨"a"⟩).offers ⟨"b"⟩ = (e.2.tracks ⟨"a"⟩).log.forwarded ∧
      (e.2.tracks ⟨"a"⟩).log.forwarded.map Prod.fst = [2, 1] := by
  have hcheck : ((run chatStep (create Router.plainEnv {}) ownAndOthers).bind fun s =>
      (s.bridges.find Router.chat).map fun e =>
        ((e.2.tracks ⟨"a"⟩).inHand ⟨"b"⟩, (e.2.tracks ⟨"a"⟩).log.forwarded.map Prod.fst)) = some ([], [2, 1]) := by
    decide +kernel
  have hdropped :
      droppedOf (trace chatStep (events Router.chat ⟨"a"⟩) (create Router.plainEnv {}) ownAndOthers) = [0] := by
    decide +kernel
  simp only [Option.bind_eq_some_iff, Option.map_eq_some_iff, Prod.mk.injEq] at hcheck
  obtain ⟨s, hr, e, he, hhand, hforwarded⟩ := hcheck
  obtain ⟨-, -, -, hoffers⟩ := delivered_once_in_order (p := ⟨"a"⟩) hr he (by decide)
  have ho := (hoffers ⟨"b"⟩ (by decide)).1
  rw [hhand, List.append_nil] at ho
  exact ⟨s, e, hr, he, hdropped, ho, hforwarded⟩

end RouterBridges

end DDSRouter
