import DDSRouter.PayloadReferences
import DDSRouter.Repeater
import DDSRouter.TrackForwarding
import Mathlib.Algebra.Order.BigOperators.Group.Finset

/-!
# Payloads on their way through a track

The payload of a sample is in a block of the pool from its reception on. The
reader's change refers to it, `take` adds a reference for the data in flight, each
writer adds one for the change it sends, and `transmit_` gives up the reference
in flight when all writers have been offered the sample. What leaves a history
gives its reference back.

The system is a track with the writers it forwards to and the pool that all of
them share. A block is named by the number of the change that it was reserved
for. Of Fast DDS it is used that a received change of size zero has no block,
and that a change which is removed releases its payload.
-/
namespace DDSRouter

open Runs Threads

namespace CommonWriter

/-- The change that leaves the history at the end of `write_`. -/
def trimmed (w : CommonWriter) : Option WriterChange :=
  if !w.topic.topicQos.isReliable then w.history.getLast?
  else if w.isFull then w.history.head? else none

/-- What `write` does to the pool: `fill_to_send_data_` adds a reference for the
change, and a change that is removed gives its reference back. -/
def writePool (w : CommonWriter) (data : RouterData) (o : NewChange) (pool : Blocks) : Blocks :=
  if w.enabled then
    match w.newChange data o with
    | none => pool
    | some (c, w₁) =>
      let shared := if data.length > 0 then data.block.elim pool pool.share else pool
      match w₁.addChange (w₁.fillToSendData c data) data with
      | none =>
        if !w₁.topic.topicQos.isReliable then shared
        else if w₁.isFull then shared.releaseAll (w₁.history.head?.toList.filterMap WriterChange.block) else shared
      | some (_, w₂) => shared.releaseAll (w₂.trimmed.toList.filterMap WriterChange.block)
  else pool

/-- The changes of the history that hold a block. -/
def held (w : CommonWriter) (n : Nat) : Nat := w.history.countP fun c => c.block = some n

variable {w : CommonWriter} {data : RouterData} {o : NewChange}

theorem count_block (c : Option WriterChange) (n : Nat) :
    (c.toList.filterMap WriterChange.block).count n = c.elim 0 fun c => (decide (c.block = some n)).toNat := by
  cases c with
  | none => rfl
  | some c => cases hb : c.block <;> simp [hb, List.count_singleton, Bool.toNat, Bool.cond_eq_ite]

theorem held_removeChange (w : CommonWriter) (i n : Nat) :
    (w.removeChange i).held n + (((w.history[i]?).toList.filterMap WriterChange.block).count n) = w.held n := by
  rw [count_block]
  cases hi : w.history[i]? with
  | none =>
    have hle : w.history.length ≤ i := List.getElem?_eq_none_iff.mp hi
    simp [held, removeChange, List.eraseIdx_of_length_le hle]
  | some c => exact countP_advance (fun c : WriterChange => decide (c.block = some n)) hi none

/-- What is trimmed is what the history loses. -/
theorem held_trim (w : CommonWriter) (n : Nat) :
    w.trim.held n + (w.trimmed.toList.filterMap WriterChange.block).count n = w.held n := by
  unfold trim trimmed
  split
  · rcases List.eq_nil_or_concat w.history with hnil | ⟨cs, c, hcs⟩
    · simp [held, removeLast, hnil]
    · rw [List.concat_eq_append] at hcs
      rw [removeLast_append hcs, show w.history.getLast? = w.history[cs.length]? by simp [hcs]]
      exact held_removeChange w cs.length n
  · split
    · rw [removeMinChange_eq, List.head?_eq_getElem?]
      exact held_removeChange w 0 n
    · simp

/-- A call of `write` that gets a change: the change is added with the block of the
data, and the history is trimmed. -/
theorem write_pool (hfit : w.Fit) (he : w.enabled = true) (ha : w.available o = true) (data : RouterData) :
    ∃ (c : WriterChange) (w₂ : CommonWriter), w₂.history = w.history ++ [c] ∧ c.block = (if data.length > 0 then data.block else none) ∧
      (w.write data o).2 = w₂.trim ∧ ∀ pool : Blocks, w.writePool data o pool =
        (if data.length > 0 then data.block.elim pool pool.share else pool).releaseAll
          (w₂.trimmed.toList.filterMap WriterChange.block) := by
  obtain ⟨c₀, pool, hnew, -, -, -, hblock, hfit₁⟩ := newChange_some hfit ha data
  obtain ⟨c, w₂, hadd, hhist, hc⟩ : ∃ c w₂, addChange { w with pool := pool }
      (fillToSendData { w with pool := pool } c₀ data) data = some (c, w₂) ∧ w₂.history = w.history ++ [c] ∧
      c.block = (if data.length > 0 then data.block else none) := by
    refine ⟨_, _, by rw [addChange, if_neg (by simp [not_isFull hfit₁])], rfl, ?_⟩
    simp only [fillToSendData, hblock]
  refine ⟨c, w₂, hhist, hc, ?_, fun p => ?_⟩
  · simp only [write, if_pos he, writeNts, hnew, hadd, trim]
  · simp only [writePool, if_pos he, hnew, hadd]

/-- Whatever `write` does, the references of the writer are those of its history. -/
theorem writePool_spec {pool : Blocks} (hfit : w.Fit) (hs : pool.Sound)
    (hlive : data.length > 0 → ∀ n ∈ data.block, 0 < pool.refs n) (hle : ∀ k, w.held k ≤ pool.refs k) :
    (w.writePool data o pool).Sound ∧ (w.write data o).2.Fit ∧
      (∀ k, (w.writePool data o pool).refs k + w.held k = pool.refs k + (w.write data o).2.held k) ∧
      ∀ k, pool.refs k = 0 → (w.writePool data o pool).refs k = 0 := by
  by_cases hok : w.enabled = true ∧ w.available o = true
  · obtain ⟨he, ha⟩ := hok
    obtain ⟨c, w₂, hhist, hc, hwrite, hpool⟩ := write_pool hfit he ha data
    have hfit' : (w.write data o).2.Fit := by
      obtain ⟨c', w', hw, -, hfit'⟩ := write_sent hfit he ha data
      rw [hw]
      exact hfit'
    have hheld : ∀ k, w₂.held k = w.held k + (decide (c.block = some k)).toNat := by
      intro k
      rw [held, hhist, List.countP_append]
      cases hb : decide (c.block = some k) <;> simp [held, hb]
    -- the reference for the new change
    obtain ⟨shared, hshared, hsound, hrefs⟩ : ∃ shared : Blocks,
        (if data.length > 0 then data.block.elim pool pool.share else pool) = shared ∧ shared.Sound ∧
        ∀ k, shared.refs k = pool.refs k + (decide (c.block = some k)).toNat := by
      refine ⟨_, rfl, ?_⟩
      split
      · rename_i hlen
        rw [if_pos hlen] at hc
        cases hb : data.block with
        | none => exact ⟨hs, fun k => by simp [hc, hb]⟩
        | some n =>
          refine ⟨RefCount.Pool.sound_share hs (hlive hlen n hb), fun k => ?_⟩
          rw [hc, hb, Option.elim_some, RefCount.Pool.refs_share]
          by_cases hk : k = n
          · simp [hk]
          · simp [hk, Ne.symm hk]
      · rename_i hlen
        rw [if_neg hlen] at hc
        exact ⟨hs, fun k => by simp [hc]⟩
    have htrim : ∀ k, (w₂.trimmed.toList.filterMap WriterChange.block).count k ≤ shared.refs k := by
      intro k
      have := held_trim w₂ k
      have := hheld k
      have := hrefs k
      have := hle k
      omega
    obtain ⟨hsound', hrefs'⟩ := RefCount.Pool.releaseAll_spec hsound htrim
    refine ⟨?_, hfit', fun k => ?_, fun k hk => ?_⟩
    · rw [hpool, hshared]
      exact hsound'
    · rw [hpool, hshared, hrefs', hwrite]
      have := held_trim w₂ k
      have := hheld k
      have := hrefs k
      have := htrim k
      have := hle k
      omega
    · have hnot : decide (c.block = some k) = false := by
        rw [decide_eq_false_iff_not, hc]
        split
        · rename_i hlen
          intro hb
          have := hlive hlen k hb
          omega
        · simp
      rw [hpool, hshared, hrefs', hrefs, hnot, hk]
      exact Nat.zero_sub _
  · have hfail : w.enabled = false ∨ w.available o = false := by
      cases he : w.enabled <;> cases ha : w.available o <;> simp_all
    have hsame : (w.write data o).2 = w := (write_failed hfail data).2.2.2
    have hpool : w.writePool data o pool = pool := by
      unfold writePool
      split
      · rename_i he
        rw [newChange_none (by simpa [he] using hfail)]
      · rfl
    rw [hsame, hpool]
    exact ⟨hs, hfit, fun k => rfl, fun k hk => hk⟩

/-- A call of `write` adds at most one change to the history. -/
theorem held_write_le (hfit : w.Fit) (k : Nat) :
    (w.write data o).2.held k ≤ w.held k + (decide (data.length > 0 ∧ data.block = some k)).toNat := by
  by_cases hok : w.enabled = true ∧ w.available o = true
  · obtain ⟨c, w', hw, hsent, -⟩ := write_sent hfit hok.1 hok.2 data
    have hblock : (decide (c.block = some k)).toNat = (decide (data.length > 0 ∧ data.block = some k)).toNat := by
      rw [hsent.payload.2]
      by_cases hlen : data.length > 0
      · simp [hlen]
      · simp [hlen]
    have hall : (w.history ++ [c]).countP (fun c => decide (c.block = some k)) =
        w.held k + (decide (c.block = some k)).toNat := by
      rw [List.countP_append]
      cases hb : decide (c.block = some k) <;> simp [held, hb]
    rw [hw, ← hblock, ← hall]
    rcases hsent.history with hh | hh | hh
    · rw [held, hh]
    · rw [held, hh, List.countP_append]
      omega
    · rw [held, hh]
      exact (List.tail_sublist _).countP_le
  · have hfail : w.enabled = false ∨ w.available o = false := by
      cases he : w.enabled <;> cases ha : w.available o <;> simp_all
    rw [(write_failed hfail data).2.2.2]
    exact Nat.le_add_right _ _

end CommonWriter

namespace TrackPayloads

structure State where
  track : Track.State
  flags : Track.Writers := fun _ => false
  writers : ParticipantId → CommonWriter
  pool : Blocks := {}
  acquired : List Nat := []
  released : List Nat := []

/-- A step of the track, with the change that a writer gets if the step is a call
of `write`, or the removal of a change that was sent. -/
inductive Action where
  | track (a : Track.Action) (o : NewChange)
  | removeChange (p : ParticipantId) (i : Nat)

/-- Writers of any kind, none of which has sent anything. -/
def create (r : Reader) (w : ParticipantId → CommonWriter) : State :=
  { track := Track.init r
    writers := fun p => { w p with pool := [], history := [] } }

/-- The blocks of the changes that have left the history of the reader. -/
def gone (old new : List (Arrival CacheChange)) : List Nat :=
  (old.filter fun e => e ∉ new ∧ 0 < e.2.maxSize).map Prod.fst

/-- A payload is not longer than its size. -/
def Sized : Track.Action → Bool
  | .arrive c => c.length ≤ c.maxSize
  | _ => true

namespace State

/-- A call of `write` inside `transmit_`. -/
def offer (s : State) (p : ParticipantId) (n : Nat) (data : DataReceived) (o : NewChange) : State :=
  let w := { s.writers p with enabled := s.flags p }
  let d : RouterData := { toDataReceived := data, block := if data.length > 0 then some n else none }
  { s with writers := Function.update s.writers p (w.write d o).2, pool := w.writePool d o s.pool }

/-- What a step of the track asks of the writers and the pool. -/
def effect (s : State) (o : NewChange) : Track.Action → State
  | .arrive c => if 0 < c.maxSize then { s with pool := s.pool.reserve s.track.log.arrivals } else s
  | .transmit i found =>
    match s.track.running[i]? with
    | some .take =>
      match (s.track.reader.take found).1 with
      | .taken n data =>
        if data.length > 0 then { s with pool := s.pool.share n, acquired := n :: s.acquired } else s
      | _ => s
    | some (.write n data []) =>
      if data.length > 0 then { s with pool := s.pool.release n, released := n :: s.released } else s
    | some (.write n data (p :: _)) => s.offer p n data o
    | _ => s
  | _ => s

end State

def step (targets : List ParticipantId) (s : State) : Action → Option State
  | .track a o =>
    if Sized a then
      (Track.step targets (s.flags, s.track) a).map fun r =>
        { s.effect o a with
          flags := r.1
          track := r.2
          pool := (s.effect o a).pool.releaseAll (gone s.track.reader.history r.2.reader.history) }
    else none
  | .removeChange p i =>
    if p ∈ targets then
      some { s with
        writers := Function.update s.writers p ((s.writers p).removeChange i)
        pool := s.pool.releaseAll (((s.writers p).history[i]?).toList.filterMap WriterChange.block) }
    else none

end TrackPayloads

namespace Track

/-- The data in flight that holds a block. -/
def TransmitPc.holds (n : Nat) : TransmitPc → Bool
  | .write m data _ => m = n ∧ data.length > 0
  | _ => false

theorem holds_write {data : DataReceived} (hlen : data.length > 0) (n : Nat) (rest : List ParticipantId) (k : Nat) :
    ((TransmitPc.write n data rest).holds k).toNat = if k = n then 1 else 0 := by
  by_cases hk : k = n
  · simp [TransmitPc.holds, hlen, hk]
  · simp [TransmitPc.holds, hk, Ne.symm hk]

def State.inFlight (s : State) (n : Nat) : Nat := s.running.countP (TransmitPc.holds n)

end Track

/-- The changes of the history that hold a block. -/
def Reader.held (r : Reader) (n : Nat) : Nat := r.history.countP fun e => e.1 = n ∧ 0 < e.2.maxSize

theorem Reader.length_fillReceivedData (r : Reader) (c : CacheChange) : (r.fillReceivedData c).length = c.length := by
  simp only [Reader.fillReceivedData]
  split <;> omega

/-- A change with data has its block in the history. -/
theorem Reader.held_pos {r : Reader} {n : Nat} {c : CacheChange} (h : (n, c) ∈ r.history) (hlen : 0 < c.length)
    (hsize : c.length ≤ c.maxSize) : 0 < r.held n := by
  refine List.countP_pos_iff.mpr ⟨(n, c), h, ?_⟩
  simp only [true_and, decide_eq_true_eq]
  omega

theorem count_cons_ite (n k : Nat) (l : List Nat) : (n :: l).count k = l.count k + if k = n then 1 else 0 := by
  rw [List.count_cons]
  by_cases hk : k = n
  · simp [hk]
  · simp [hk, Ne.symm hk]

/-- Where the first change of the history is the only one with its number. -/
theorem Reader.rest_eq_filter {r : Reader} {n : Nat} {c : CacheChange} {rest : List (Arrival CacheChange)}
    (h : r.numbers.count n ≤ 1) (hh : r.history = (n, c) :: rest) : rest = r.history.filter fun e => e.1 ≠ n := by
  simp only [Reader.numbers, hh, List.map_cons, List.count_cons_self] at h
  have hnot : n ∉ rest.map Prod.fst := List.count_eq_zero.mp (by omega)
  rw [hh, List.filter_cons_of_neg (by simp), eq_comm, List.filter_eq_self]
  intro e he
  simp only [ne_eq, decide_eq_true_eq]
  rintro rfl
  exact hnot (List.mem_map_of_mem he)

namespace TrackPayloads

/-- All that hold a reference to a block. -/
def State.holders (targets : List ParticipantId) (s : State) (n : Nat) : Nat :=
  s.track.reader.held n + (∑ p ∈ targets.toFinset, (s.writers p).held n) + s.track.inFlight n

structure Inv (targets : List ParticipantId) (s : State) : Prop where
  numbering : Track.Numbering s.track
  fit : ∀ p, (s.writers p).Fit
  sized : ∀ e ∈ s.track.reader.history, e.2.length ≤ e.2.maxSize
  rest : ∀ n data rest, .write n data rest ∈ s.track.running → ∀ p ∈ rest, p ∈ targets
  sound : s.pool.Sound
  refs : ∀ n, s.pool.refs n = s.holders targets n
  fresh : ∀ n, s.track.log.arrivals ≤ n → s.pool.refs n = 0
  inFlight : ∀ n, s.acquired.count n = s.released.count n + s.track.inFlight n
  acquired : ∀ n, s.acquired.count n ≤ s.track.log.taken.count n

end TrackPayloads

namespace Track

section Flow

variable {targets : List ParticipantId} {w w' : Writers} {s s' : State} {a : Action}

theorem rest_eq_filter (h : Numbering s) {n : Nat} {c : CacheChange} {rest : List (Arrival CacheChange)}
    (hh : s.reader.history = (n, c) :: rest) : rest = s.reader.history.filter fun e => e.1 ≠ n := by
  have hcount := h.places_le n
  rw [State.places] at hcount
  exact Reader.rest_eq_filter (by omega) hh

/-- Changes come in by reception only, and leave the history one by one. -/
theorem step_reader (h : Numbering s) (hs : step targets (w, s) a = some (w', s')) :
    (∃ c, a = .arrive c ∧ s'.reader = s.reader.received s.log.arrivals c) ∨
      (∀ c, a ≠ .arrive c) ∧ ∃ p, s'.reader.history = s.reader.history.filter p := by
  have hall : ∃ p, s.reader.history = s.reader.history.filter p := ⟨fun _ => true, by simp⟩
  have hcallback : ∀ pc, ∃ p, (callbackStep s pc).1.reader.history = s.reader.history.filter p := by
    intro pc
    rcases callbackStep_history s pc with hr | ⟨m, -, -, -, hr, -⟩
    · rw [hr]
      exact hall
    · rw [hr]
      exact ⟨_, rfl⟩
  cases a with
  | arrive c =>
    cases hs
    exact .inl ⟨c, rfl, rfl⟩
  | callback i =>
    obtain ⟨pc, -, -, rfl⟩ := step_callback_inv hs
    exact .inr ⟨by simp, hcallback pc⟩
  | enable | disable =>
    obtain ⟨-, c, rfl⟩ := step_called (by simp) hs
    exact .inr ⟨by simp, hall⟩
  | control =>
    refine .inr ⟨by simp, ?_⟩
    cases step_control_inv hs with
    | enCallback pc hc => exact hcallback pc
    | enReader hc =>
      simp only [Reader.enable]
      split <;> exact hall
    | enSet | enWriter | disSet | disWait | disReader | disWriter | disDone => exact hall
  | start =>
    obtain ⟨-, -, rfl⟩ := step_start_inv hs
    exact .inr ⟨by simp, hall⟩
  | transmit i found =>
    refine .inr ⟨by simp, ?_⟩
    obtain ⟨pc, t, x, -, hm, -, rfl⟩ := step_transmit_inv hs
    cases hm with
    | discarded n c rest hen hh => exact ⟨_, rest_eq_filter h hh⟩
    | taken n c rest hen hh => exact ⟨_, rest_eq_filter h hh⟩
    | lock | stay | leave | store | noData | retry | last | again | written | write | unlock => exact hall

/-- Other steps than those of `transmit_` neither take nor forward. -/
theorem step_outside (hs : step targets (w, s) a = some (w', s')) (ha : ∀ i found, a ≠ .transmit i found) :
    s'.log.taken = s.log.taken ∧ (s'.running = s.running ∨ s'.running = s.running ++ [.lock]) := by
  have hcallback : ∀ pc, (callbackStep s pc).1.log.taken = s.log.taken ∧
      (callbackStep s pc).1.running = s.running := by
    intro pc
    obtain ⟨done, k, hlog⟩ := callbackStep_log s pc
    obtain ⟨st, r, q, l, hf⟩ := callbackStep_frame s pc
    exact ⟨by rw [hlog], by rw [hf]⟩
  cases a with
  | arrive c =>
    cases hs
    exact ⟨rfl, .inl rfl⟩
  | callback i =>
    obtain ⟨pc, -, -, rfl⟩ := step_callback_inv hs
    exact ⟨(hcallback pc).1, .inl (hcallback pc).2⟩
  | enable | disable =>
    obtain ⟨-, c, rfl⟩ := step_called (by simp) hs
    exact ⟨rfl, .inl rfl⟩
  | control =>
    cases step_control_inv hs with
    | enCallback pc hc => exact ⟨(hcallback pc).1, .inl (hcallback pc).2⟩
    | enReader | enSet | enWriter | disSet | disWait | disReader | disWriter | disDone => exact ⟨rfl, .inl rfl⟩
  | start =>
    obtain ⟨-, -, rfl⟩ := step_start_inv hs
    exact ⟨rfl, .inr rfl⟩
  | transmit i found => exact absurd rfl (ha i found)

theorem inFlight_outside (hs : step targets (w, s) a = some (w', s')) (ha : ∀ i found, a ≠ .transmit i found)
    (n : Nat) : s'.inFlight n = s.inFlight n := by
  rcases (step_outside hs ha).2 with hr | hr
  · rw [State.inFlight, State.inFlight, hr]
  · simp [State.inFlight, hr, List.countP_append, TransmitPc.holds]

/-- A step of one task changes what is in flight by what this task holds. -/
theorem inFlight_advance {i : Nat} {pc : TransmitPc} (hpc : s.running[i]? = some pc) (t : State)
    (x : Option TransmitPc) (n : Nat) :
    State.inFlight { t with running := advance s.running i x } n + (pc.holds n).toNat =
      s.inFlight n + x.elim 0 fun pc => (pc.holds n).toNat :=
  countP_advance (TransmitPc.holds n) hpc x

end Flow

end Track

namespace TrackPayloads

section Gone

variable {old new : List (Arrival CacheChange)}

theorem count_gone (old new : List (Arrival CacheChange)) (n : Nat) :
    (gone old new).count n = old.countP fun e => (e.1 = n ∧ 0 < e.2.maxSize) ∧ e ∉ new := by
  rw [gone, List.count, List.countP_map, List.countP_filter]
  refine List.countP_congr fun e _ => ?_
  simp only [Function.comp, Bool.and_eq_true, beq_iff_eq, decide_eq_true_eq]
  tauto

/-- Of a history that is filtered, the others are gone. -/
theorem gone_filter (r r' : Reader) {p : Arrival CacheChange → Bool} (h : r'.history = r.history.filter p)
    (n : Nat) : (gone r.history r'.history).count n + r'.held n = r.held n := by
  have hout : (gone r.history r'.history).count n =
      r.history.countP fun e => decide (e.1 = n ∧ 0 < e.2.maxSize) && !p e := by
    rw [count_gone, h]
    refine List.countP_congr fun e he => ?_
    simp [List.mem_filter, he]
  rw [hout, Reader.held, Reader.held, h, List.countP_filter, Nat.add_comm]
  have hsplit := List.countP_eq_countP_filter_add r.history (fun e => decide (e.1 = n ∧ 0 < e.2.maxSize)) p
  rw [List.countP_filter, List.countP_filter] at hsplit
  simpa using hsplit.symm

theorem gone_received (r : Reader) (n : Nat) (c : CacheChange) : gone r.history (r.received n c).history = [] := by
  rw [gone, List.map_eq_nil_iff, List.filter_eq_nil_iff]
  intro x hx
  simp [Reader.mem_history_received, hx]

end Gone

/-- The reference of a change that is being received. -/
def arriving (s : State) (n : Nat) : Track.Action → Nat
  | .arrive c => if n = s.track.log.arrivals ∧ 0 < c.maxSize then 1 else 0
  | _ => 0

/-- The pool after the calls of a step, before the changes that leave the history
of the reader release their payloads. -/
structure Effected (targets : List ParticipantId) (s : State) (a : Track.Action) (t : Track.State) (e : State) :
    Prop where
  fit : ∀ p, (e.writers p).Fit
  sound : e.pool.Sound
  refs : ∀ n, e.pool.refs n =
    s.track.reader.held n + arriving s n a + (∑ p ∈ targets.toFinset, (e.writers p).held n) + t.inFlight n
  fresh : ∀ n, s.pool.refs n = 0 → e.pool.refs n ≤ arriving s n a
  inFlight : ∀ n, e.acquired.count n = e.released.count n + t.inFlight n
  acquired : ∀ n, e.acquired.count n ≤ t.log.taken.count n

section Effects

variable {targets : List ParticipantId} {s : State} {t : Track.State} {f : Track.Writers} {a : Track.Action}
variable {o : NewChange}

/-- A step without calls. -/
theorem effected_none (h : Inv targets s) (ha : ∀ n, arriving s n a = 0)
    (hfly : ∀ n, t.inFlight n = s.track.inFlight n) (htaken : ∀ n, s.track.log.taken.count n ≤ t.log.taken.count n) :
    Effected targets s a t s := by
  refine ⟨h.fit, h.sound, fun n => ?_, fun n hn => hn.le.trans (Nat.zero_le _), fun n => ?_,
    fun n => (h.acquired n).trans (htaken n)⟩
  · rw [h.refs, ha, hfly, State.holders, Nat.add_zero]
  · rw [h.inFlight, hfly]

theorem effected_arrive {c : CacheChange} (h : Inv targets s)
    (hs : Track.step targets (s.flags, s.track) (.arrive c) = some (f, t)) :
    Effected targets s (.arrive c) t (s.effect o (.arrive c)) := by
  have htaken := (Track.step_outside hs (by simp)).1
  have hfly := Track.inFlight_outside hs (by simp)
  by_cases hsize : 0 < c.maxSize
  · have hzero := h.fresh s.track.log.arrivals le_rfl
    simp only [State.effect, if_pos hsize]
    refine ⟨h.fit, RefCount.Pool.sound_reserve h.sound hzero, fun n => ?_, fun n hn => ?_, fun n => ?_, fun n => ?_⟩
    · have hrefs := h.refs n
      rw [RefCount.Pool.refs_reserve, hfly]
      simp only [State.holders] at hrefs
      by_cases hn : n = s.track.log.arrivals
      · rw [hn] at hrefs ⊢
        simp only [arriving, hsize, and_self, if_true]
        omega
      · simpa [arriving, hn] using hrefs
    · rw [RefCount.Pool.refs_reserve]
      by_cases hnew : n = s.track.log.arrivals
      · simp [arriving, hnew, hsize]
      · simp [hnew, hn]
    · rw [h.inFlight, hfly]
    · rw [htaken]
      exact h.acquired n
  · simp only [State.effect, if_neg hsize]
    exact effected_none h (fun n => by simp [arriving, hsize]) hfly fun n => by rw [htaken]

/-- One writer is offered the sample that a task has in flight. -/
theorem effected_offer {i : Nat} {n : Nat} {data : DataReceived} {p : ParticipantId} {rest : List ParticipantId}
    (h : Inv targets s) (hpc : s.track.running[i]? = some (.write n data (p :: rest)))
    (ha : ∀ n, arriving s n a = 0) (hfly : ∀ n, t.inFlight n = s.track.inFlight n)
    (htaken : t.log.taken = s.track.log.taken) : Effected targets s a t (s.offer p n data o) := by
  have hp : p ∈ targets := h.rest n data (p :: rest) (mem_of_at hpc) p (List.mem_cons_self ..)
  set w : CommonWriter := { s.writers p with enabled := s.flags p } with hw
  set d : RouterData := { toDataReceived := data, block := if data.length > 0 then some n else none } with hd
  have hfit : w.Fit := ⟨(h.fit p).room, (h.fit p).kind, (h.fit p).pool⟩
  have hlive : d.length > 0 → ∀ m ∈ d.block, 0 < s.pool.refs m := by
    intro hlen m hm
    have hlen' : data.length > 0 := hlen
    simp only [hd, if_pos hlen', Option.mem_def, Option.some.injEq] at hm
    subst hm
    have hhold : (Track.TransmitPc.write n data (p :: rest)).holds n = true := by
      simp [Track.TransmitPc.holds, hlen']
    have := countP_pos_of_at hpc hhold
    rw [h.refs, State.holders, Track.State.inFlight]
    omega
  have hle : ∀ k, w.held k ≤ s.pool.refs k := by
    intro k
    have := RefCount.le_sum (List.mem_toFinset.mpr hp) s.writers fun w => w.held k
    rw [h.refs, State.holders]
    change (s.writers p).held k ≤ _
    omega
  obtain ⟨hsound, hfit', hrefs, hfresh⟩ := CommonWriter.writePool_spec (o := o) hfit h.sound hlive hle
  refine ⟨fun q => ?_, hsound, fun k => ?_, fun k hk => (hfresh k hk).le.trans (Nat.zero_le _), fun k => ?_,
    fun k => ?_⟩
  · change (Function.update s.writers p (w.write d o).2 q).Fit
    by_cases hq : q = p
    · rw [hq, Function.update_self]
      exact hfit'
    · rw [Function.update_of_ne hq]
      exact h.fit q
  · have hsum := RefCount.sum_update (List.mem_toFinset.mpr hp) s.writers (w.write d o).2 fun w => w.held k
    have hold := h.refs k
    have hk := hrefs k
    have hsame : w.held k = (s.writers p).held k := rfl
    rw [ha, hfly]
    simp only [State.holders] at hold
    change (w.writePool d o s.pool).refs k = _ + 0 +
      (∑ q ∈ targets.toFinset, (Function.update s.writers p (w.write d o).2 q).held k) + _
    omega
  · rw [hfly]
    exact h.inFlight k
  · rw [htaken]
    exact h.acquired k

/-- The last writer has been offered the sample. -/
theorem effected_written {n : Nat} {data : DataReceived} (h : Inv targets s) (ha : ∀ n, arriving s n a = 0)
    (hfly : ∀ k, t.inFlight k + ((Track.TransmitPc.write n data []).holds k).toNat = s.track.inFlight k)
    (htaken : t.log.taken = s.track.log.taken) :
    Effected targets s a t
      (if data.length > 0 then { s with pool := s.pool.release n, released := n :: s.released } else s) := by
  split
  · rename_i hlen
    simp only [Track.holds_write hlen] at hfly
    have hpos : 0 < s.pool.refs n := by
      have := hfly n
      rw [if_pos rfl] at this
      rw [h.refs, State.holders]
      omega
    refine ⟨h.fit, RefCount.Pool.sound_release h.sound hpos, fun k => ?_, fun k hk => ?_, fun k => ?_, fun k => ?_⟩
    · have hold := h.refs k
      have := hfly k
      simp only [State.holders] at hold
      change (s.pool.release n).refs k = s.track.reader.held k + arriving s k a +
        (∑ p ∈ targets.toFinset, (s.writers p).held k) + t.inFlight k
      rw [RefCount.Pool.refs_release, ha]
      omega
    · rw [RefCount.Pool.refs_release, hk, Nat.zero_sub]
      exact Nat.zero_le _
    · have hold := h.inFlight k
      have := hfly k
      simp only [count_cons_ite]
      omega
    · rw [htaken]
      exact h.acquired k
  · rename_i hlen
    refine effected_none h ha (fun k => ?_) fun k => by rw [htaken]
    have := hfly k
    simpa [Track.TransmitPc.holds, hlen] using this

/-- `take` acquires a reference exactly for the data that has length. -/
theorem effected_taken {n : Nat} {c : CacheChange} {rest : List (Arrival CacheChange)} (h : Inv targets s)
    (hh : s.track.reader.history = (n, c) :: rest) (ha : ∀ n, arriving s n a = 0)
    (hfly : ∀ k, t.inFlight k = s.track.inFlight k +
      ((Track.TransmitPc.write n (s.track.reader.fillReceivedData c) targets).holds k).toNat)
    (htaken : t.log.taken = n :: s.track.log.taken) :
    Effected targets s a t (if (s.track.reader.fillReceivedData c).length > 0 then
      { s with pool := s.pool.share n, acquired := n :: s.acquired } else s) := by
  have hlength := s.track.reader.length_fillReceivedData c
  have hsub : ∀ k, s.track.log.taken.count k ≤ t.log.taken.count k := by
    intro k
    rw [htaken]
    exact List.count_le_count_cons
  split
  · rename_i hlen
    simp only [Track.holds_write hlen] at hfly
    -- the change of the reader still has its reference
    have hpos : 0 < s.pool.refs n := by
      have hmem : (n, c) ∈ s.track.reader.history := by simp [hh]
      have hheld := Reader.held_pos hmem (hlength ▸ hlen) (h.sized (n, c) hmem)
      rw [h.refs, State.holders]
      omega
    refine ⟨h.fit, RefCount.Pool.sound_share h.sound hpos, fun k => ?_, fun k hk => ?_, fun k => ?_, fun k => ?_⟩
    · have hold := h.refs k
      simp only [State.holders] at hold
      change (s.pool.share n).refs k = s.track.reader.held k + arriving s k a +
        (∑ p ∈ targets.toFinset, (s.writers p).held k) + t.inFlight k
      rw [RefCount.Pool.refs_share, ha, hfly]
      omega
    · have hne : k ≠ n := by
        rintro rfl
        omega
      rw [RefCount.Pool.refs_share, if_neg hne, hk]
      exact Nat.zero_le _
    · have hold := h.inFlight k
      simp only [hfly, count_cons_ite]
      omega
    · have hold := h.acquired k
      rw [htaken, List.count_cons, List.count_cons]
      omega
  · rename_i hlen
    refine effected_none h ha (fun k => ?_) hsub
    have := hfly k
    simpa [Track.TransmitPc.holds, hlen] using this

/-- The calls of one step of `transmit_`. -/
theorem effected_transmit {i : Nat} {found : Bool} (h : Inv targets s)
    (hs : Track.step targets (s.flags, s.track) (.transmit i found) = some (f, t)) :
    Effected targets s (.transmit i found) t (s.effect o (.transmit i found)) := by
  simp only [Track.step, Option.bind_eq_some_iff, Option.map_eq_some_iff, Prod.mk.injEq] at hs
  obtain ⟨pc, hpc, ⟨u, x⟩, hr, -, rfl⟩ := hs
  have hfly := Track.inFlight_advance hpc u x
  simp only [State.effect, hpc]
  cases pc with
  | take =>
    have ht := s.track.reader.take_takes found
    simp only [Track.transmitStep] at hr
    generalize s.track.reader.take found = res at hr ht ⊢
    cases ht with
    | notEnabled | noData | notFound =>
      cases hr
      exact effected_none h (fun n => rfl) hfly fun n => le_rfl
    | discarded n c rest he hh =>
      cases hr
      exact effected_none h (fun n => rfl) hfly fun k => List.count_le_count_cons
    | taken n c rest he hh hd =>
      cases hr
      exact effected_taken h hh (fun n => rfl) hfly rfl
  | write n data rest =>
    cases rest with
    | nil =>
      cases hr
      exact effected_written h (fun n => rfl) hfly rfl
    | cons p rest =>
      cases hr
      refine effected_offer h hpc (fun n => rfl) (fun k => ?_) rfl
      exact Nat.add_right_cancel (hfly k)
  | lock =>
    simp only [Track.transmitStep] at hr
    split at hr
    · cases hr
    · cases hr
      exact effected_none h (fun n => rfl) hfly fun n => le_rfl
  | loop =>
    cases hr
    refine effected_none h (fun n => rfl) (fun k => (hfly k).trans ?_) fun n => le_rfl
    split <;> rfl
  | sub =>
    cases hr
    refine effected_none h (fun n => rfl) (fun k => (hfly k).trans ?_) fun n => le_rfl
    split <;> rfl
  | store =>
    cases hr
    exact effected_none h (fun n => rfl) hfly fun n => le_rfl
  | unlock =>
    cases hr
    exact effected_none h (fun n => rfl) hfly fun n => le_rfl

theorem effected_step (h : Inv targets s) (hs : Track.step targets (s.flags, s.track) a = some (f, t)) :
    Effected targets s a t (s.effect o a) := by
  cases a with
  | arrive c => exact effected_arrive h hs
  | transmit i found => exact effected_transmit h hs
  | callback | enable | disable | control | start =>
    have htaken := (Track.step_outside hs (by simp)).1
    exact effected_none h (fun n => rfl) (Track.inFlight_outside hs (by simp)) fun n => by rw [htaken]

/-- The references of the reader's changes, with those that are gone. -/
theorem reader_held (h : Inv targets s) (hs : Track.step targets (s.flags, s.track) a = some (f, t)) (n : Nat) :
    (gone s.track.reader.history t.reader.history).count n + t.reader.held n =
      s.track.reader.held n + arriving s n a := by
  rcases Track.step_reader h.numbering hs with ⟨c, rfl, hreader⟩ | ⟨harr, p, hhist⟩
  · rw [hreader, gone_received, List.count_nil, Reader.held, (Reader.history_received _ _ _).countP_eq,
      List.countP_cons, Nat.zero_add]
    simp only [Reader.held, arriving, decide_eq_true_eq, eq_comm (a := n)]
  · have hzero : arriving s n a = 0 := by
      cases a with
      | arrive c => exact absurd rfl (harr c)
      | _ => rfl
    rw [hzero]
    exact gone_filter _ _ hhist n

end Effects

section Steps

variable {targets : List ParticipantId} {s s' : State}

theorem inv_track {a : Track.Action} {o : NewChange} (h : Inv targets s)
    (hs : step targets s (.track a o) = some s') : Inv targets s' := by
  simp only [step] at hs
  split at hs
  · rename_i hsized
    obtain ⟨⟨f, t⟩, ht, rfl⟩ := Option.map_eq_some_iff.mp hs
    have he := effected_step (o := o) h ht
    have hreader := reader_held h ht
    have hle : ∀ n, (gone s.track.reader.history t.reader.history).count n ≤ (s.effect o a).pool.refs n := by
      intro n
      have := hreader n
      have := he.refs n
      omega
    obtain ⟨hsound, hrefs⟩ := RefCount.Pool.releaseAll_spec he.sound hle
    have hnew : ∀ n, ((s.effect o a).pool.releaseAll (gone s.track.reader.history t.reader.history)).refs n =
        t.reader.held n + (∑ p ∈ targets.toFinset, ((s.effect o a).writers p).held n) + t.inFlight n := by
      intro n
      have := hreader n
      have := he.refs n
      have := hle n
      rw [hrefs]
      omega
    refine ⟨Track.numbering_move h.numbering (Track.step_move ht), he.fit, fun e hmem => ?_, ?_, hsound, hnew,
      fun n hn => ?_, he.inFlight, he.acquired⟩
    · rcases Track.step_history ht hmem with hmem | ⟨c, rfl, rfl⟩
      · exact h.sized e hmem
      · simpa [Sized] using hsized
    · intro n data rest hmem p hp
      rcases Track.step_running ht hmem with ⟨pre, hmem⟩ | ⟨rfl, -⟩
      · exact h.rest n data (pre ++ rest) hmem p (List.mem_append_right pre hp)
      · exact hp
    · have harr := Track.step_arrivals ht
      have hzero : arriving s n a = 0 := by
        cases a with
        | arrive c =>
          simp only [Track.Action.arriving, List.length_singleton] at harr
          have hne : n ≠ s.track.log.arrivals := by
            have : t.log.arrivals ≤ n := hn
            omega
          simp [arriving, hne]
        | _ => rfl
      have hold := h.fresh n (by have : t.log.arrivals ≤ n := hn; omega)
      have := he.fresh n hold
      change ((s.effect o a).pool.releaseAll (gone s.track.reader.history t.reader.history)).refs n = 0
      rw [hrefs]
      omega
  · cases hs

theorem inv_removeChange {p : ParticipantId} {i : Nat} (h : Inv targets s)
    (hs : step targets s (.removeChange p i) = some s') : Inv targets s' := by
  simp only [step] at hs
  split at hs
  · rename_i hp
    cases hs
    have hheld := CommonWriter.held_removeChange (s.writers p) i
    have hle : ∀ n, ((((s.writers p).history[i]?).toList.filterMap WriterChange.block).count n) ≤
        s.pool.refs n := by
      intro n
      have := hheld n
      have := RefCount.le_sum (List.mem_toFinset.mpr hp) s.writers fun w => w.held n
      rw [h.refs, State.holders]
      omega
    obtain ⟨hsound, hrefs⟩ := RefCount.Pool.releaseAll_spec h.sound hle
    refine ⟨h.numbering, fun q => ?_, h.sized, h.rest, hsound, fun n => ?_, fun n hn => ?_, h.inFlight, h.acquired⟩
    · change (Function.update s.writers p ((s.writers p).removeChange i) q).Fit
      by_cases hq : q = p
      · rw [hq, Function.update_self]
        exact CommonWriter.fit_removeChange (h.fit p) i
      · rw [Function.update_of_ne hq]
        exact h.fit q
    · have hsum := RefCount.sum_update (List.mem_toFinset.mpr hp) s.writers ((s.writers p).removeChange i) fun w => w.held n
      have hold := h.refs n
      have := hheld n
      simp only [State.holders] at hold ⊢
      rw [hrefs]
      omega
    · change (s.pool.releaseAll _).refs n = 0
      rw [hrefs, h.fresh n hn, Nat.zero_sub]
  · cases hs

theorem inv_step {a : Action} (h : Inv targets s) (hs : step targets s a = some s') : Inv targets s' := by
  cases a with
  | track a o => exact inv_track h hs
  | removeChange p i => exact inv_removeChange h hs

theorem inv_create (targets : List ParticipantId) (r : Reader) (w : ParticipantId → CommonWriter) :
    Inv targets (create r w) := by
  refine ⟨Track.numbering_init r, fun p => ⟨fun hm => hm, by simp [create], by simp [create]⟩, by simp [create, Track.init],
    by simp [create, Track.init], RefCount.Pool.sound_init, fun n => ?_, fun n _ => rfl, fun n => rfl, fun n => rfl.le⟩
  simp [State.holders, create, Track.init, Reader.held, CommonWriter.held, Track.State.inFlight]

end Steps

/-! The counter of a block has 32 bits. It does not overflow: a block is in the
history of the reader or in flight, and at most once in the history of each
writer. -/

/-- A task that has the sample to offer. -/
def offers (n : Nat) : Track.TransmitPc → Bool
  | .write m _ _ => m = n
  | _ => false

/-- A sample is offered by one task, to each writer once. -/
structure Once (s : State) : Prop where
  rest : ∀ n data rest, .write n data rest ∈ s.track.running → rest.Nodup
  busy : ∀ n, s.track.running.countP (offers n) ≤ s.track.log.taken.count n
  known : ∀ p n, 0 < (s.writers p).held n → n ∈ s.track.log.taken
  once : ∀ p n, (s.writers p).held n ≤ 1
  ahead : ∀ n data rest, .write n data rest ∈ s.track.running → ∀ p ∈ rest, (s.writers p).held n = 0

section Bounds

variable {targets : List ParticipantId} {s s' : State}

/-- A step that takes no sample and calls no writer. -/
theorem once_same (h : Once s) (hw : s'.writers = s.writers)
    (htaken : ∀ n, s.track.log.taken.count n ≤ s'.track.log.taken.count n)
    (hcount : ∀ n, s'.track.running.countP (offers n) ≤ s.track.running.countP (offers n))
    (hmem : ∀ n data rest, .write n data rest ∈ s'.track.running → .write n data rest ∈ s.track.running) :
    Once s' := by
  refine ⟨fun n data rest hr => h.rest n data rest (hmem n data rest hr),
    fun n => (hcount n).trans ((h.busy n).trans (htaken n)), fun p n hp => ?_, fun p n => ?_,
    fun n data rest hr p hp => ?_⟩
  · rw [hw] at hp
    have := htaken n
    have hold := List.count_pos_iff.mpr (h.known p n hp)
    exact List.count_pos_iff.mp (by omega)
  · rw [hw]
    exact h.once p n
  · rw [hw]
    exact h.ahead n data rest (hmem n data rest hr) p hp

/-- The task at one place goes on without a sample. -/
theorem once_advance (h : Once s) {i : Nat} {pc : Track.TransmitPc} {x : Option Track.TransmitPc}
    (hpc : s.track.running[i]? = some pc) (hx : ∀ n data rest, x ≠ some (.write n data rest))
    (hw : s'.writers = s.writers) (htaken : ∀ n, s.track.log.taken.count n ≤ s'.track.log.taken.count n)
    (hrun : s'.track.running = advance s.track.running i x) : Once s' := by
  refine once_same h hw htaken (fun n => ?_) fun n data rest hr => ?_
  · have hcount := countP_advance (offers n) hpc x
    have hzero : (x.elim 0 fun pc => (offers n pc).toNat) = 0 := by
      cases x with
      | none => rfl
      | some pc =>
        cases pc with
        | write m data rest => exact absurd rfl (hx m data rest)
        | _ => rfl
    rw [hrun]
    omega
  · rw [hrun] at hr
    rcases mem_advance hr with hr | hr
    · exact hr
    · exact absurd hr (hx n data rest)

/-- `take` gives a sample that no writer has been offered. -/
theorem once_taken (hinv : Inv targets s) (h : Once s) (hnodup : targets.Nodup) {i n : Nat} {c : CacheChange}
    {rest : List (Arrival CacheChange)} {data : DataReceived} (hpc : s.track.running[i]? = some .take)
    (hh : s.track.reader.history = (n, c) :: rest) (hw : s'.writers = s.writers)
    (htaken : s'.track.log.taken = n :: s.track.log.taken)
    (hrun : s'.track.running = advance s.track.running i (some (.write n data targets))) : Once s' := by
  have hnew : n ∉ s.track.log.taken := by
    have hplaces := hinv.numbering.places_le n
    simp only [Track.State.places, Reader.numbers, hh, List.map_cons, List.count_cons_self] at hplaces
    exact List.count_eq_zero.mp (by omega)
  have hmem : ∀ m d r, .write m d r ∈ s'.track.running →
      .write m d r ∈ s.track.running ∨ m = n ∧ r = targets := by
    intro m d r hr
    rw [hrun] at hr
    rcases mem_advance hr with hr | hr
    · exact .inl hr
    · cases hr
      exact .inr ⟨rfl, rfl⟩
  refine ⟨fun m d r hr => ?_, fun m => ?_, fun p m hp => ?_, fun p m => ?_, fun m d r hr p hp => ?_⟩
  · rcases hmem m d r hr with hr | ⟨-, rfl⟩
    · exact h.rest m d r hr
    · exact hnodup
  · have hcount := countP_advance (offers m) hpc (some (.write n data targets))
    have hbusy := h.busy m
    rw [hrun, htaken, List.count_cons]
    by_cases hm : n = m
    · simp only [offers, hm, decide_true, Option.elim_some, Bool.toNat_true, Bool.toNat_false, beq_self_eq_true,
        if_true] at hcount ⊢
      omega
    · simp only [offers, hm, decide_false, Option.elim_some, Bool.toNat_false, beq_iff_eq, if_false] at hcount ⊢
      omega
  · rw [hw] at hp
    rw [htaken]
    exact List.mem_cons_of_mem n (h.known p m hp)
  · rw [hw]
    exact h.once p m
  · rw [hw]
    rcases hmem m d r hr with hr | ⟨rfl, -⟩
    · exact h.ahead m d r hr p hp
    · by_contra hne
      exact hnew (h.known p m (Nat.pos_of_ne_zero hne))

/-- One writer is offered the sample, which it did not have. -/
theorem once_offer (hinv : Inv targets s) (h : Once s) {i n : Nat} {data : DataReceived} {q : ParticipantId}
    {rest : List ParticipantId} {v : CommonWriter} (hpc : s.track.running[i]? = some (.write n data (q :: rest)))
    (hw : s'.writers = Function.update s.writers q v)
    (hv : ∀ k, v.held k ≤ (s.writers q).held k + (decide (k = n)).toNat)
    (htaken : s'.track.log.taken = s.track.log.taken)
    (hrun : s'.track.running = advance s.track.running i (some (.write n data rest))) : Once s' := by
  have hold := h.rest n data (q :: rest) (mem_of_at hpc)
  have hzero := h.ahead n data (q :: rest) (mem_of_at hpc) q (List.mem_cons_self ..)
  have hone : s.track.running.countP (offers n) ≤ 1 := by
    have hplaces := hinv.numbering.places_le n
    have := h.busy n
    rw [Track.State.places] at hplaces
    omega
  have htake : n ∈ s.track.log.taken := by
    have hpos := countP_pos_of_at (p := offers n) hpc (by simp [offers])
    have := h.busy n
    exact List.count_pos_iff.mp (by omega)
  have hwrite : ∀ p k, (s'.writers p).held k ≤ (s.writers p).held k + (decide (p = q ∧ k = n)).toNat := by
    intro p k
    rw [hw]
    by_cases hp : p = q
    · rw [hp, Function.update_self]
      simpa using hv k
    · rw [Function.update_of_ne hp]
      exact Nat.le_add_right _ _
  refine ⟨fun m d r hr => ?_, fun m => ?_, fun p m hp => ?_, fun p m => ?_, fun m d r hr p hp => ?_⟩
  · rw [hrun] at hr
    rcases mem_advance hr with hr | hr
    · exact h.rest m d r hr
    · cases hr
      exact (List.nodup_cons.mp hold).2
  · have hcount := countP_advance (offers m) hpc (some (.write n data rest))
    have hbusy := h.busy m
    rw [hrun, htaken]
    simp only [offers, Option.elim_some] at hcount
    omega
  · rw [htaken]
    have := hwrite p m
    by_cases hpm : p = q ∧ m = n
    · rw [hpm.2]
      exact htake
    · simp only [hpm, decide_false, Bool.toNat_false] at this
      exact h.known p m (by omega)
  · have := hwrite p m
    by_cases hpm : p = q ∧ m = n
    · obtain ⟨rfl, rfl⟩ := hpm
      simp only [and_self, decide_true, Bool.toNat_true] at this
      omega
    · simp only [hpm, decide_false, Bool.toNat_false] at this
      exact this.trans (h.once p m)
  · -- another task with this sample would be counted as well
    have hfree : (s.writers p).held m = 0 ∧ ¬ (p = q ∧ m = n) := by
      rw [hrun] at hr
      obtain ⟨j, hj⟩ := List.mem_iff_getElem?.mp hr
      by_cases hij : j = i
      · have hlt := (List.getElem?_eq_some_iff.mp hpc).1
        rw [hij, advance, List.getElem?_set_self hlt, Option.some.injEq] at hj
        cases hj
        refine ⟨h.ahead n data (q :: rest) (mem_of_at hpc) p (List.mem_cons_of_mem q hp), fun hpm => ?_⟩
        exact (List.nodup_cons.mp hold).1 (hpm.1 ▸ hp)
      · rw [advance, List.getElem?_set_ne (Ne.symm hij)] at hj
        refine ⟨h.ahead m d r (mem_of_at hj) p hp, fun hpm => hij ?_⟩
        exact eq_of_countP_le_one hone hj hpc (by simp [offers, hpm.2]) (by simp [offers])
    have := hwrite p m
    simp only [hfree.2, decide_false, Bool.toNat_false] at this
    omega

/-- Steps outside `transmit_`. -/
theorem once_outside {a : Track.Action} {o : NewChange} {t : Track.State} {f : Track.Writers} (h : Once s)
    (ht : Track.step targets (s.flags, s.track) a = some (f, t)) (ha : ∀ i found, a ≠ .transmit i found)
    (htrack : s'.track = t) (hw : s'.writers = (s.effect o a).writers) : Once s' := by
  obtain ⟨htaken, hrun⟩ := Track.step_outside ht ha
  have hsame : (s.effect o a).writers = s.writers := by
    cases a with
    | arrive c =>
      simp only [State.effect]
      split <;> rfl
    | transmit i found => exact absurd rfl (ha i found)
    | callback | enable | disable | control | start => rfl
  refine once_same h (hw.trans hsame) (fun n => by rw [htrack, htaken]) (fun n => ?_) fun n data rest hr => ?_
  · rw [htrack]
    rcases hrun with hr | hr
    · rw [hr]
    · rw [hr, List.countP_append]
      simp [offers]
  · rw [htrack] at hr
    rcases hrun with hrun | hrun
    · rwa [hrun] at hr
    · rw [hrun] at hr
      simpa using hr

/-- Steps of `transmit_`. -/
theorem once_transmit {i : Nat} {found : Bool} {o : NewChange} {t : Track.State} {f : Track.Writers}
    (hinv : Inv targets s) (h : Once s) (hnodup : targets.Nodup)
    (ht : Track.step targets (s.flags, s.track) (.transmit i found) = some (f, t))
    (htrack : s'.track = t) (hw : s'.writers = (s.effect o (.transmit i found)).writers) : Once s' := by
  simp only [Track.step, Option.bind_eq_some_iff, Option.map_eq_some_iff, Prod.mk.injEq] at ht
  obtain ⟨pc, hpc, ⟨u, x⟩, hr, -, rfl⟩ := ht
  simp only [State.effect, hpc] at hw
  have hrun : s'.track.running = advance s.track.running i x := by rw [htrack]
  have htaken : s'.track.log.taken = u.log.taken := by rw [htrack]
  -- a step that leaves the writers and the taken samples alone
  have hstay : (∀ n data rest, x ≠ some (.write n data rest)) → s'.writers = s.writers →
      u.log.taken = s.track.log.taken → Once s' := fun hx hw hu =>
    once_advance h hpc hx hw (fun n => by rw [htaken, hu]) hrun
  cases pc with
  | take =>
    have htk := s.track.reader.take_takes found
    simp only [Track.transmitStep] at hr
    generalize s.track.reader.take found = res at hr htk hw
    cases htk with
    | notEnabled | noData | notFound =>
      cases hr
      exact hstay (by simp) hw rfl
    | discarded n c rest he hh =>
      cases hr
      refine once_advance h hpc (by simp) hw (fun n => ?_) hrun
      rw [htaken]
      exact List.count_le_count_cons
    | taken n c rest he hh hd =>
      cases hr
      refine once_taken hinv h hnodup hpc hh ?_ htaken hrun
      rw [hw]
      dsimp only
      split <;> rfl
  | write n data rest =>
    cases rest with
    | nil =>
      cases hr
      refine hstay (by simp) ?_ rfl
      rw [hw]
      dsimp only
      split <;> rfl
    | cons q rest =>
      cases hr
      refine once_offer hinv h hpc hw (fun k => ?_) htaken hrun
      have hfit : CommonWriter.Fit { s.writers q with enabled := s.flags q } :=
        ⟨(hinv.fit q).room, (hinv.fit q).kind, (hinv.fit q).pool⟩
      refine (CommonWriter.held_write_le hfit k).trans ?_
      refine Nat.add_le_add_left ?_ _
      by_cases hk : k = n
      · simp only [hk, decide_true, Bool.toNat_true]
        exact Bool.toNat_le _
      · have hne : ¬ (data.length > 0 ∧ (if data.length > 0 then some n else none) = some k) := by
          rintro ⟨hlen, hb⟩
          rw [if_pos hlen, Option.some.injEq] at hb
          exact hk hb.symm
        rw [decide_eq_false hne]
        exact Nat.zero_le _
  | lock =>
    simp only [Track.transmitStep] at hr
    split at hr
    · cases hr
    · cases hr
      exact hstay (by simp) hw rfl
  | loop =>
    cases hr
    refine hstay (fun n data rest => ?_) hw rfl
    split <;> simp
  | sub =>
    cases hr
    refine hstay (fun n data rest => ?_) hw rfl
    split <;> simp
  | store | unlock =>
    cases hr
    exact hstay (by simp) hw rfl

theorem once_step {a : Action} (hinv : Inv targets s) (h : Once s) (hnodup : targets.Nodup)
    (hs : step targets s a = some s') : Once s' := by
  cases a with
  | removeChange p i =>
    simp only [step] at hs
    split at hs
    · cases hs
      have hle : ∀ q n, (Function.update s.writers p ((s.writers p).removeChange i) q).held n ≤
          (s.writers q).held n := by
        intro q n
        by_cases hq : q = p
        · rw [hq, Function.update_self]
          have := CommonWriter.held_removeChange (s.writers p) i n
          omega
        · rw [Function.update_of_ne hq]
      refine ⟨h.rest, h.busy, fun q n hq => h.known q n (hq.trans_le (hle q n)),
        fun q n => (hle q n).trans (h.once q n), fun n data rest hr q hq => ?_⟩
      exact Nat.le_zero.mp ((hle q n).trans (h.ahead n data rest hr q hq).le)
    · cases hs
  | track a o =>
    simp only [step] at hs
    split at hs
    · obtain ⟨⟨f, t⟩, ht, rfl⟩ := Option.map_eq_some_iff.mp hs
      cases a with
      | arrive | callback | enable | disable | control | start => exact once_outside h ht (by simp) rfl rfl
      | transmit i found => exact once_transmit hinv h hnodup ht rfl rfl
    · cases hs

/-- In every run of a track with different writers, a block has at most one
reference more than there are writers. -/
theorem references_le {r : Reader} {w : ParticipantId → CommonWriter} {as : List Action} (hnodup : targets.Nodup)
    (hrun : run (step targets) (create r w) as = some s) (n : Nat) : s.pool.refs n ≤ targets.length + 1 := by
  obtain ⟨hinv, honce⟩ : Inv targets s ∧ Once s := by
    refine run_invariant (I := fun s => Inv targets s ∧ Once s) (fun s a s' hI hs =>
      ⟨inv_step hI.1 hs, once_step hI.1 hI.2 hnodup hs⟩) ⟨inv_create targets r w, ?_⟩ hrun
    refine ⟨by simp [create, Track.init], fun n => ?_, fun p n hp => ?_, fun p n => ?_, by simp [create, Track.init]⟩
    · simp [create, Track.init]
    · simp [create, CommonWriter.held] at hp
    · simp [create, CommonWriter.held]
  have hplaces := hinv.numbering.places_le n
  have hreader : s.track.reader.held n ≤ s.track.reader.numbers.count n := by
    rw [Reader.held, Reader.numbers, List.count, List.countP_map]
    refine List.countP_mono_left fun e _ he => ?_
    simp only [decide_eq_true_eq] at he
    simpa using he.1
  have hfly : s.track.inFlight n ≤ s.track.running.countP (offers n) := by
    refine List.countP_mono_left fun pc _ hpc => ?_
    cases pc with
    | write m data rest =>
      simp only [Track.TransmitPc.holds, decide_eq_true_eq] at hpc
      simpa [offers] using hpc.1
    | _ => cases hpc
  have hsum : ∑ p ∈ targets.toFinset, (s.writers p).held n ≤ targets.length := by
    calc ∑ p ∈ targets.toFinset, (s.writers p).held n
        ≤ ∑ _p ∈ targets.toFinset, 1 := Finset.sum_le_sum fun p _ => honce.once p n
      _ = targets.toFinset.card := (Finset.card_eq_sum_ones _).symm
      _ ≤ targets.length := targets.toFinset_card_le
  have hbusy := honce.busy n
  rw [hinv.refs, State.holders]
  rw [Track.State.places] at hplaces
  omega

end Bounds

/-- What holds of the references in every state. `acquired` and `released` are the
samples for which `take` has taken a reference and for which `transmit_` has given
it up. -/
structure Conserved (targets : List ParticipantId) (s : State) : Prop where
  references : ∀ n, s.pool.refs n = s.holders targets n
  misused : s.pool.misused = false
  once : ∀ n, s.acquired.count n = s.released.count n + s.track.inFlight n ∧ s.acquired.count n ≤ 1
  room : ∀ p, (s.writers p).isFull = false
  clean : s.pool.isClean = true ↔ ∀ n, s.holders targets n = 0
  emptied : s.track.reader.history = [] → (∀ p ∈ targets, (s.writers p).history = []) →
    (∀ n, s.track.inFlight n = 0) → s.pool.isClean = true

theorem Inv.conserved {targets : List ParticipantId} {s : State} (h : Inv targets s) : Conserved targets s := by
  have hclean : s.pool.isClean = true ↔ ∀ n, s.holders targets n = 0 := by
    rw [h.sound.isClean_iff]
    simp only [h.refs]
  refine ⟨h.refs, h.sound.misused, fun n => ⟨h.inFlight n, ?_⟩, fun p => CommonWriter.not_isFull (h.fit p), hclean,
    fun hreader hwriters hfly => hclean.mpr fun n => ?_⟩
  · have hplaces := h.numbering.places_le n
    have := h.acquired n
    rw [Track.State.places] at hplaces
    omega
  · have hsum : ∑ p ∈ targets.toFinset, (s.writers p).held n = 0 := by
      refine Finset.sum_eq_zero fun p hp => ?_
      simp [CommonWriter.held, hwriters p (List.mem_toFinset.mp hp)]
    rw [State.holders, hsum, hfly, Reader.held, hreader]
    rfl

/-- In every run of a track, whatever the reader receives and the writers answer,
the references of each block are those of the changes in the histories and of the
data in flight. -/
theorem payloads_conserved (targets : List ParticipantId) (r : Reader) (w : ParticipantId → CommonWriter)
    (as : List Action) (s : State) (hrun : run (step targets) (create r w) as = some s) :
    Conserved targets s := by
  have hinv : Inv targets s := run_invariant (fun _ _ _ hI hs => inv_step hI hs) (inv_create targets r w) hrun
  exact hinv.conserved

/-! A keyed topic with a writer that is reliable and one that is not: a sample with
length, then one without. -/

def keyedTopic : DdsTopic := { topicName := "t", typeName := "T", keyed := true }

def keyedReader : Reader := { participantId := ⟨"a"⟩, guid := ⟨7, 1⟩, topic := keyedTopic }

/-- The writer of `b` keeps what it sends. -/
def mixedWriters (p : ParticipantId) : CommonWriter :=
  { guid := ⟨8, 1⟩
    topic := { keyedTopic with topicQos := { reliabilityQos := if p = ⟨"b"⟩ then .reliable else .bestEffort } }
    repeater := false }

def plain (a : Track.Action) : Action := .track a .created

/-- A change arrives and is forwarded to two writers. -/
def forwarded (c : CacheChange) : List Action :=
  List.flatten
    [[plain (.arrive c)], List.replicate 4 (plain (.callback 0)), [plain .start],
      List.replicate 12 (plain (.transmit 0 true))]

def withAndWithoutLength : List Action :=
  List.flatten
    [[plain .enable], List.replicate 4 (plain .control),
      forwarded { writerGuid := ⟨3, 1⟩, sequenceNumber := 1, length := 4, maxSize := 8 },
      forwarded { writerGuid := ⟨3, 1⟩, sequenceNumber := 2, length := 0, maxSize := 0, kind := .notAliveDisposed }]

theorem payloads_conserved_mixed :
    ∃ s, run (step [⟨"b"⟩, ⟨"c"⟩]) (create keyedReader mixedWriters) withAndWithoutLength = some s ∧
      Conserved [⟨"b"⟩, ⟨"c"⟩] s ∧ s.pool.refs 0 = 1 ∧ s.acquired = [0] ∧ s.released = [0] ∧
      (s.writers ⟨"b"⟩).history.length = 2 := by
  have hrun : ∃ s, run (step [⟨"b"⟩, ⟨"c"⟩]) (create keyedReader mixedWriters) withAndWithoutLength = some s ∧
      s.pool.refs 0 = 1 ∧ s.acquired = [0] ∧ s.released = [0] ∧ (s.writers ⟨"b"⟩).history.length = 2 :=
    ⟨_, rfl, by decide, by decide, by decide, by decide⟩
  obtain ⟨s, hrun, hrefs, hacquired, hreleased, hhistory⟩ := hrun
  exact ⟨s, hrun, payloads_conserved _ _ _ _ s hrun, hrefs, hacquired, hreleased, hhistory⟩

end TrackPayloads

end DDSRouter
