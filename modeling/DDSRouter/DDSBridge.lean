import DDSRouter.Track
import Mathlib.Logic.Function.Basic

/-!
# Bridges of one topic

A `DDSBridge` has one reader and one writer in every participant, and one track
for every participant, which forwards from the reader of that participant to
the writers of the others. The writers are shared between the tracks. `enable`
and `disable` hold the mutex of the bridge and walk through the tracks one after
another, while listener and pool threads of all tracks go on.
-/
namespace DDSRouter.DDSBridge

open Track

/-- The participants of the router and the reader that each of them creates for
the topic. Ids are the keys of a map, so no id comes twice. -/
structure ParticipantsDatabase where
  ids : List ParticipantId
  nodup : ids.Nodup
  isRepeater : ParticipantId → Bool
  createReader : ParticipantId → Reader

/-- The writers of the track of one participant: its own only for a repeater. -/
def ParticipantsDatabase.writersExceptOne (db : ParticipantsDatabase) (id : ParticipantId) :
    List ParticipantId :=
  if !db.isRepeater id then db.ids.filter fun q => q ≠ id else db.ids

/-- Points of the thread that holds the mutex of the bridge: between two
tracks, or inside `enable` or `disable` of one of them. -/
inductive WalkPc where
  | idle
  | next (enable : Bool) (rest : List ParticipantId)
  | inside (enable : Bool) (id : ParticipantId) (rest : List ParticipantId)
  deriving DecidableEq, Repr

structure Bridge where
  enabled : Bool := false
  writers : Writers := fun _ => false
  tracks : ParticipantId → Track.State
  walk : WalkPc := .idle

/-- A bridge as its constructor leaves it: the tracks are created disabled. -/
def create (db : ParticipantsDatabase) : Bridge := { tracks := fun id => Track.init (db.createReader id) }

/-- One step of one track over the writers of the bridge. -/
def trackStep (db : ParticipantsDatabase) (b : Bridge) (id : ParticipantId) (a : Track.Action) :
    Option Bridge :=
  (Track.step (db.writersExceptOne id) (b.writers, b.tracks id) a).map fun r =>
    { b with writers := r.1, tracks := Function.update b.tracks id r.2 }

/-- Steps of listener and pool threads, as opposed to calls of `enable` and
`disable`, which only the bridge makes. -/
def ofOtherThread : Track.Action → Bool
  | .enable | .disable | .control => false
  | .arrive _ | .callback _ | .start | .transmit _ _ => true

inductive Action where
  | enable | disable | walk
  | track (id : ParticipantId) (a : Track.Action)
  deriving DecidableEq, Repr

def walkStep (db : ParticipantsDatabase) (b : Bridge) : WalkPc → Option Bridge
  | .idle => none
  | .next e [] => some { b with enabled := e, walk := .idle }
  | .next e (id :: rest) =>
    (trackStep db b id (if e then .enable else .disable)).map fun b' => { b' with walk := .inside e id rest }
  | .inside e id rest =>
    if (b.tracks id).control = .idle then some { b with walk := .next e rest } else trackStep db b id .control

def step (db : ParticipantsDatabase) (b : Bridge) : Action → Option Bridge
  | .enable =>
    if b.walk = .idle then some (if b.enabled then b else { b with walk := .next true db.ids }) else none
  | .disable =>
    if b.walk = .idle then some (if b.enabled then { b with walk := .next false db.ids } else b) else none
  | .walk => walkStep db b b.walk
  | .track id a => if id ∈ db.ids ∧ ofOtherThread a then trackStep db b id a else none

/-- What a step of the bridge can be: bookkeeping of the walk, the step with
which the walk enters a track, a step inside it, or one of another thread. -/
inductive Move (db : ParticipantsDatabase) (b : Bridge) : Action → Bridge → Prop where
  | stay (a : Action) : Move db b a b
  | begin (a : Action) (e : Bool) (hi : b.walk = .idle) : Move db b a { b with walk := .next e db.ids }
  | done (e : Bool) (hw : b.walk = .next e []) : Move db b .walk { b with enabled := e, walk := .idle }
  | leave (e : Bool) (id : ParticipantId) (rest : List ParticipantId) (hw : b.walk = .inside e id rest)
      (hc : (b.tracks id).control = .idle) : Move db b .walk { b with walk := .next e rest }
  | enter (e : Bool) (id : ParticipantId) (rest : List ParticipantId) (w : Writers) (t : Track.State)
      (hw : b.walk = .next e (id :: rest))
      (ht : Track.step (db.writersExceptOne id) (b.writers, b.tracks id)
        (if e then .enable else .disable) = some (w, t)) :
      Move db b .walk { b with
        writers := w, tracks := Function.update b.tracks id t, walk := .inside e id rest }
  | inside (e : Bool) (id : ParticipantId) (rest : List ParticipantId) (w : Writers) (t : Track.State)
      (hw : b.walk = .inside e id rest)
      (ht : Track.step (db.writersExceptOne id) (b.writers, b.tracks id) .control = some (w, t)) :
      Move db b .walk { b with writers := w, tracks := Function.update b.tracks id t }
  | thread (id : ParticipantId) (a : Track.Action) (w : Writers) (t : Track.State)
      (hid : id ∈ db.ids) (ha : ofOtherThread a = true)
      (ht : Track.step (db.writersExceptOne id) (b.writers, b.tracks id) a = some (w, t)) :
      Move db b (.track id a) { b with writers := w, tracks := Function.update b.tracks id t }

theorem trackStep_some {db : ParticipantsDatabase} {b b' : Bridge} {id : ParticipantId}
    {a : Track.Action} (h : trackStep db b id a = some b') :
    ∃ w t, Track.step (db.writersExceptOne id) (b.writers, b.tracks id) a = some (w, t) ∧
      b' = { b with writers := w, tracks := Function.update b.tracks id t } := by
  simp only [trackStep, Option.map_eq_some_iff] at h
  obtain ⟨⟨w, t⟩, ht, rfl⟩ := h
  exact ⟨w, t, ht, rfl⟩

theorem walkStep_move {db : ParticipantsDatabase} {b b' : Bridge}
    (h : walkStep db b b.walk = some b') : Move db b .walk b' := by
  cases hw : b.walk with
  | idle => simp [walkStep, hw] at h
  | next e rest =>
    cases rest with
    | nil =>
      simp only [walkStep, hw, Option.some.injEq] at h
      subst h
      exact .done e hw
    | cons id rest =>
      simp only [walkStep, hw, Option.map_eq_some_iff] at h
      obtain ⟨b₁, h₁, rfl⟩ := h
      obtain ⟨w, t, ht, rfl⟩ := trackStep_some h₁
      exact .enter e id rest w t hw ht
  | inside e id rest =>
    simp only [walkStep, hw] at h
    split at h
    · rename_i hc
      cases h
      exact .leave e id rest hw hc
    · obtain ⟨w, t, ht, rfl⟩ := trackStep_some h
      exact .inside e id rest w t hw ht

theorem step_move {db : ParticipantsDatabase} {b b' : Bridge} {a : Action}
    (h : step db b a = some b') : Move db b a b' := by
  cases a with
  | enable =>
    simp only [step] at h
    split at h
    · rename_i hi
      cases h
      split
      · exact .stay _
      · exact .begin _ true hi
    · cases h
  | disable =>
    simp only [step] at h
    split at h
    · rename_i hi
      cases h
      split
      · exact .begin _ false hi
      · exact .stay _
    · cases h
  | walk => exact walkStep_move h
  | track id a =>
    simp only [step] at h
    split at h
    · rename_i hid
      obtain ⟨w, t, ht, rfl⟩ := trackStep_some h
      exact .thread id a w t hid.1 hid.2 ht
    · cases h

end DDSRouter.DDSBridge
