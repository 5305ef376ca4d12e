import DDSRouter.MapPayloadPool

/-!
# The pool that copies

`CopyPayloadPool` gives every payload memory of its own. It uses `reserve_` and
`release_` of the base class, which count what has been reserved and released.
`reserve_` refuses a block of no bytes and counts nothing then, but
`get_payload` does not look at its answer and reports success. The release of such a
payload is counted, and from there on one release too many.

Beside the pool is the ledger of its clients: the payloads that were obtained and
have not been released, each with what its memory is expected to be.
-/
namespace DDSRouter

namespace CopyPayloadPool

open Runs

open MapPayloadPool (Memory SerializedPayload Documented)

/-- Every place has a payload from the start. -/
structure State where
  memory : Memory := fun _ => none
  payloads : Nat → Payload := fun _ => {}
  reserveCount : BitVec 64 := 0
  releaseCount : BitVec 64 := 0
  thrown : Bool := false

namespace State

def setPayload (m : State) (i : Nat) (p : Payload) : State := { m with payloads := Function.update m.payloads i p }

def content (m : State) (p : Payload) : List Byte := ((p.data.bind m.memory).getD []).take p.length

def isClean (m : State) : Bool := m.reserveCount = m.releaseCount

/-- `add_release_payload_`; the exception leaves the increment behind. -/
def addReleasePayload (m : State) : Bool × State :=
  if m.reserveCount < m.releaseCount + 1 then (false, { m with releaseCount := m.releaseCount + 1, thrown := true })
  else (true, { m with releaseCount := m.releaseCount + 1 })

end State

section Calls

variable (fastdds : SerializedPayload)

/-- `reserve_`, with the address that an allocation gives back. -/
def reserve (m : State) (target size : Nat) (addr : Address) : Option (Bool × State) :=
  if size = 0 then some (false, m)
  else if (m.memory addr).isSome then none
  else
    (fastdds.reserve m.memory (m.payloads target) size addr).map fun r =>
      (true, { m with memory := r.1, reserveCount := m.reserveCount + 1 }.setPayload target r.2)

/-- `get_payload(size)`. -/
def getPayload (m : State) (target size : Nat) (addr : Address) : Option (Bool × State) :=
  (reserve fastdds m target size addr).map fun r =>
    (true, r.2.setPayload target { r.2.payloads target with maxSize := size })

/-- `memcpy` to the memory of a payload; of no bytes it does nothing. -/
def memcpy (m : State) (p : Payload) (bytes : List Byte) : Option State :=
  if bytes = [] then some m
  else p.data.bind fun a => (m.memory a).map fun chunk =>
    { m with memory := Function.update m.memory a (some (overwrite chunk bytes)) }

/-- `get_payload(source)`; the owner of the source does not matter. -/
def copyPayload (m : State) (target : Nat) (source : ForeignPayload) (addr : Address) : Option (Bool × State) :=
  (getPayload fastdds m target source.maxSize addr).bind fun r =>
    if !r.1 then some (false, r.2)
    else
      (memcpy r.2 (r.2.payloads target) source.bytes).map fun m' =>
        (true, m'.setPayload target
          { m'.payloads target with length := source.bytes.length, maxSize := source.maxSize })

/-- `release_payload` with `release_`. -/
def releasePayload (m : State) (target : Nat) : Option (Bool × State) :=
  (fastdds.empty m.memory (m.payloads target)).map fun r =>
    let m' := { m with memory := r.1 }.setPayload target r.2
    if r.2.data.isSome then (false, m') else m'.addReleasePayload

/-- The payload of a place as a source. -/
def State.asSource (m : State) (i : Nat) : ForeignPayload :=
  { maxSize := (m.payloads i).maxSize, bytes := m.content (m.payloads i) }

/-- One call: what it returns, and the state after it. A source of this pool is copied
like any other. -/
def call (m : State) (addr : Address) : PayloadCall → Option (Bool × State)
  | .declare => some (true, m)
  | .get target size => getPayload fastdds m target size addr
  | .copy target source => copyPayload fastdds m target source addr
  | .share source target => copyPayload fastdds m target (m.asSource source) addr
  | .release target => releasePayload fastdds m target
  | .fill target bytes =>
    if bytes.length ≤ (m.payloads target).maxSize then
      (memcpy m (m.payloads target) bytes).map fun m' =>
        (true, m'.setPayload target { m'.payloads target with length := bytes.length })
    else none

end Calls

/-! ### Clients -/

/-- A payload that has been obtained: its place, and the size and the content that it
is to have. -/
structure Held where
  target : Nat
  maxSize : Nat
  bytes : List Byte
  deriving DecidableEq, Repr

structure Session where
  pool : State := {}
  held : List Held := []

/-- What a call asks the pool for. -/
def wanted (m : State) : PayloadCall → Option Held
  | .get target size => some ⟨target, size, []⟩
  | .copy target source => some ⟨target, source.maxSize, source.bytes⟩
  | .share source target => some ⟨target, (m.asSource source).maxSize, (m.asSource source).bytes⟩
  | .declare | .release _ | .fill _ _ => none

def Session.holds (x : Session) (i : Nat) : Bool := i ∈ x.held.map Held.target

/-- The ledger after a call that has returned. -/
def ledger (x : Session) (obtained : Bool) : PayloadCall → List Held
  | .release target => x.held.filter fun e => e.target ≠ target
  | .fill target bytes => x.held.map fun e => if e.target = target then { e with bytes := bytes } else e
  | c => if obtained then (wanted x.pool c).toList ++ x.held else x.held

/-- Targets are not in use, sources are not longer than their size, and what is
released or written to has been obtained. -/
def WellFormed (x : Session) : PayloadCall → Bool
  | .release target | .fill target _ => x.holds target
  | c => (wanted x.pool c).all fun e => !x.holds e.target && decide (e.bytes.length ≤ e.maxSize)

def step (fastdds : SerializedPayload) (x : Session) (c : PayloadCall × Address) : Option Session :=
  if WellFormed x c.1 then
    (call fastdds x.pool c.2 c.1).map fun r => { pool := r.2, held := ledger x r.1 c.1 }
  else none

/-- The payload of an entry of the ledger has memory, with what is expected there. -/
def Owns (m : State) (e : Held) : Prop :=
  ∃ a chunk, (m.payloads e.target).data = some a ∧ m.memory a = some chunk ∧
    (m.payloads e.target).length = e.bytes.length ∧ (m.payloads e.target).maxSize = e.maxSize ∧
    m.content (m.payloads e.target) = e.bytes

/-- The counters and the ledger agree, nothing was thrown, and every payload that was
obtained has a block of its own. -/
structure Balanced (x : Session) : Prop where
  thrown : x.pool.thrown = false
  count : x.pool.reserveCount.toNat = x.pool.releaseCount.toNat + x.held.length
  clean : x.pool.isClean = true ↔ x.held = []
  owns : ∀ e ∈ x.held, Owns x.pool e
  apart : ∀ e ∈ x.held, ∀ e' ∈ x.held, e.target ≠ e'.target →
    (x.pool.payloads e.target).data ≠ (x.pool.payloads e'.target).data

/-- A payload is asked for with a size that is not zero, and there are fewer than 2^64
of them. -/
def AsksForBytes (x : Session) (c : PayloadCall) : Prop :=
  ∀ e ∈ wanted x.pool c, e.maxSize ≠ 0 ∧ x.pool.reserveCount.toNat + 1 < 2 ^ 64

instance (x : Session) (c : PayloadCall) : Decidable (AsksForBytes x c) :=
  inferInstanceAs (Decidable (∀ e ∈ wanted x.pool c, e.maxSize ≠ 0 ∧ x.pool.reserveCount.toNat + 1 < 2 ^ 64))

/-! ### Single calls -/

/-- The pool after a payload has been obtained at an address. -/
def obtained (m : State) (e : Held) (addr : Address) : State :=
  { m with
    memory := Function.update m.memory addr (some (overwrite (List.replicate e.maxSize 0) e.bytes))
    reserveCount := m.reserveCount + 1 }.setPayload e.target ⟨some addr, e.bytes.length, e.maxSize⟩

section Single

variable {fastdds : SerializedPayload} {m m' : State} {target : Nat} {addr : Address} {r : Bool}

theorem getPayload_blank (hdoc : Documented fastdds) (hblank : m.payloads target = {}) {size : Nat}
    (hsize : size ≠ 0) (h : getPayload fastdds m target size addr = some (r, m')) :
    r = true ∧ m.memory addr = none ∧ m' = obtained m ⟨target, size, []⟩ addr := by
  simp only [getPayload, reserve, if_neg hsize] at h
  split at h
  · simp at h
  · rename_i hfree
    have hfree : m.memory addr = none := by simpa using hfree
    rw [hblank, hdoc.reserve_blank _ _ _ hsize hfree] at h
    simp only [Option.map_some, Option.some.injEq, Prod.mk.injEq] at h
    obtain ⟨rfl, rfl⟩ := h
    refine ⟨rfl, hfree, ?_⟩
    simp [obtained, State.setPayload, overwrite]

theorem memcpy_obtained (e : Held) (m : State) (addr : Address) (bytes : List Byte) :
    memcpy (obtained m { e with bytes := [] } addr) ((obtained m { e with bytes := [] } addr).payloads e.target) bytes =
      some { obtained m { e with bytes := [] } addr with
        memory := Function.update m.memory addr (some (overwrite (List.replicate e.maxSize 0) bytes)) } := by
  unfold memcpy
  split
  · rename_i hnil
    simp [obtained, State.setPayload, hnil]
  · simp [obtained, State.setPayload, overwrite]

theorem copyPayload_blank (hdoc : Documented fastdds) (hblank : m.payloads target = {}) {source : ForeignPayload}
    (hsize : source.maxSize ≠ 0) (h : copyPayload fastdds m target source addr = some (r, m')) :
    r = true ∧ m.memory addr = none ∧ m' = obtained m ⟨target, source.maxSize, source.bytes⟩ addr := by
  simp only [copyPayload, Option.bind_eq_some_iff] at h
  obtain ⟨⟨r₁, m₁⟩, hget, h⟩ := h
  obtain ⟨rfl, hfree, rfl⟩ := getPayload_blank hdoc hblank hsize hget
  have hcpy := memcpy_obtained ⟨target, source.maxSize, source.bytes⟩ m addr source.bytes
  simp only [Bool.not_true, Bool.false_eq_true, if_false, hcpy, Option.map_some, Option.some.injEq, Prod.mk.injEq] at h
  obtain ⟨rfl, rfl⟩ := h
  refine ⟨rfl, hfree, ?_⟩
  simp [obtained, State.setPayload]

/-- Whatever is asked for with a size, it is the same for all three calls. -/
theorem call_wanted {c : PayloadCall} {e : Held} (hdoc : Documented fastdds) (hw : wanted m c = some e)
    (hblank : m.payloads e.target = {}) (hsize : e.maxSize ≠ 0) (h : call fastdds m addr c = some (r, m')) :
    r = true ∧ m.memory addr = none ∧ m' = obtained m e addr := by
  cases c with
  | get target size =>
    cases hw
    exact getPayload_blank hdoc hblank hsize h
  | copy target source =>
    cases hw
    exact copyPayload_blank hdoc hblank hsize h
  | share source target =>
    cases hw
    exact copyPayload_blank hdoc hblank hsize h
  | declare | release target | fill target bytes => cases hw

theorem getPayload_zero (h : getPayload fastdds m target 0 addr = some (r, m')) :
    r = true ∧ m'.reserveCount = m.reserveCount ∧ m'.releaseCount = m.releaseCount := by
  simp only [getPayload, reserve, if_true, Option.map_some, Option.some.injEq, Prod.mk.injEq] at h
  obtain ⟨rfl, rfl⟩ := h
  exact ⟨rfl, rfl, rfl⟩

theorem memcpy_counts {p : Payload} {bytes : List Byte} (h : memcpy m p bytes = some m') :
    m'.reserveCount = m.reserveCount ∧ m'.releaseCount = m.releaseCount := by
  unfold memcpy at h
  split at h
  · cases h
    exact ⟨rfl, rfl⟩
  · simp only [Option.bind_eq_some_iff, Option.map_eq_some_iff] at h
    obtain ⟨a, -, chunk, -, rfl⟩ := h
    exact ⟨rfl, rfl⟩

theorem copyPayload_zero {source : ForeignPayload} (hsize : source.maxSize = 0)
    (h : copyPayload fastdds m target source addr = some (r, m')) :
    r = true ∧ m'.reserveCount = m.reserveCount ∧ m'.releaseCount = m.releaseCount := by
  simp only [copyPayload, hsize, Option.bind_eq_some_iff] at h
  obtain ⟨⟨r₁, m₁⟩, hget, h⟩ := h
  obtain ⟨rfl, hres, hrel⟩ := getPayload_zero hget
  simp only [Bool.not_true, Bool.false_eq_true, if_false, Option.map_eq_some_iff, Prod.mk.injEq] at h
  obtain ⟨m₂, hcpy, rfl, rfl⟩ := h
  obtain ⟨hres', hrel'⟩ := memcpy_counts hcpy
  exact ⟨rfl, hres'.trans hres, hrel'.trans hrel⟩

/-- A payload of no bytes is handed out as well, and not counted. -/
theorem call_zero {c : PayloadCall} {e : Held} (hw : wanted m c = some e) (hsize : e.maxSize = 0)
    (h : call fastdds m addr c = some (r, m')) :
    r = true ∧ m'.reserveCount = m.reserveCount ∧ m'.releaseCount = m.releaseCount := by
  cases c with
  | get target size =>
    cases hw
    subst hsize
    exact getPayload_zero h
  | copy target source =>
    cases hw
    exact copyPayload_zero hsize h
  | share source target =>
    cases hw
    exact copyPayload_zero hsize h
  | declare | release target | fill target bytes => cases hw

end Single

/-! ### The ledger and the pool -/

structure Inv (x : Session) : Prop where
  thrown : x.pool.thrown = false
  count : x.pool.reserveCount.toNat = x.pool.releaseCount.toNat + x.held.length
  nodup : (x.held.map Held.target).Nodup
  owns : ∀ e ∈ x.held, Owns x.pool e
  blank : ∀ i, x.holds i = false → x.pool.payloads i = {}
  apart : ∀ i j a, (x.pool.payloads i).data = some a → (x.pool.payloads j).data = some a → i = j

section Ledger

variable {x : Session} {m m' : State} {e : Held} {i : Nat} {a addr : Address}

theorem holds_iff : x.holds i = true ↔ ∃ e ∈ x.held, e.target = i := by
  simp [Session.holds]

/-- Pointers go to memory that is in use. -/
theorem Inv.used (h : Inv x) (hi : (x.pool.payloads i).data = some a) : ∃ chunk, x.pool.memory a = some chunk := by
  cases hh : x.holds i with
  | true =>
    obtain ⟨e, he, rfl⟩ := holds_iff.mp hh
    obtain ⟨a', chunk, hdata, hmem, -⟩ := h.owns e he
    rw [hi, Option.some.injEq] at hdata
    exact ⟨chunk, hdata ▸ hmem⟩
  | false => simp [h.blank i hh] at hi

theorem owns_congr (h : Owns m e) (hp : m'.payloads e.target = m.payloads e.target)
    (hm : ∀ a, (m.payloads e.target).data = some a → m'.memory a = m.memory a) : Owns m' e := by
  obtain ⟨a, chunk, hdata, hmem, hlen, hsize, hbytes⟩ := h
  refine ⟨a, chunk, ?_, ?_, ?_, ?_, ?_⟩
  · rw [hp, hdata]
  · rw [hm a hdata, hmem]
  · rw [hp, hlen]
  · rw [hp, hsize]
  · rw [hp, ← hbytes]
    simp only [State.content, hdata, Option.bind_some, hm a hdata]

theorem Inv.balanced (h : Inv x) : Balanced x := by
  refine ⟨h.thrown, h.count, ?_, h.owns, ?_⟩
  · have hcount := h.count
    simp only [State.isClean, decide_eq_true_eq, ← BitVec.toNat_inj, ← List.length_eq_zero_iff]
    omega
  · intro e he e' he' hne hdata
    obtain ⟨a, -, ha, -⟩ := h.owns e he
    exact hne (h.apart _ _ a ha (hdata ▸ ha))

theorem inv_new : Inv {} := by
  refine ⟨rfl, rfl, List.nodup_nil, fun e he => absurd he List.not_mem_nil, fun _ _ => rfl, ?_⟩
  intro i j a hi
  simp at hi

theorem inv_obtained (h : Inv x) (hnew : x.holds e.target = false) (hfree : x.pool.memory addr = none)
    (hroom : x.pool.reserveCount.toNat + 1 < 2 ^ 64) :
    Inv { pool := obtained x.pool e addr, held := e :: x.held } := by
  have hnot : ∀ i, (x.pool.payloads i).data ≠ some addr := by
    intro i hi
    obtain ⟨chunk, hchunk⟩ := h.used hi
    simp [hfree] at hchunk
  have hother : ∀ i, i ≠ e.target → (obtained x.pool e addr).payloads i = x.pool.payloads i :=
    fun i hi => Function.update_of_ne hi _ _
  have hself : (obtained x.pool e addr).payloads e.target = ⟨some addr, e.bytes.length, e.maxSize⟩ :=
    Function.update_self _ _ _
  constructor
  · exact h.thrown
  · have hcount := h.count
    have hone : (x.pool.reserveCount + 1).toNat = x.pool.reserveCount.toNat + 1 := by bv_omega
    simp only [obtained, State.setPayload, List.length_cons, hone]
    omega
  · refine List.nodup_cons.mpr ⟨?_, h.nodup⟩
    simpa [Session.holds] using hnew
  · intro e' he'
    rcases List.mem_cons.mp he' with rfl | he'
    · refine ⟨addr, overwrite (List.replicate e'.maxSize 0) e'.bytes, ?_, ?_, ?_, ?_, ?_⟩
      · rw [hself]
      · simp [obtained, State.setPayload]
      · rw [hself]
      · rw [hself]
      · rw [hself]
        simp [State.content, obtained, State.setPayload, take_overwrite]
    · have hne : e'.target ≠ e.target := by
        intro heq
        rw [← heq, ← Bool.not_eq_true, holds_iff] at hnew
        exact hnew ⟨e', he', rfl⟩
      refine owns_congr (h.owns e' he') (hother _ hne) fun a ha => ?_
      have haddr : a ≠ addr := fun heq => hnot e'.target (heq ▸ ha)
      simp [obtained, State.setPayload, haddr]
  · intro i hi
    simp only [Session.holds, List.map_cons, List.mem_cons, decide_eq_false_iff_not, not_or] at hi
    rw [hother i hi.1]
    exact h.blank i (by simpa [Session.holds] using hi.2)
  · intro i j a hi hj
    by_cases hie : i = e.target
    · by_cases hje : j = e.target
      · rw [hie, hje]
      · rw [hie, hself, Option.some.injEq] at hi
        rw [hother j hje, ← hi] at hj
        exact absurd hj (hnot j)
    · rw [hother i hie] at hi
      by_cases hje : j = e.target
      · rw [hje, hself, Option.some.injEq] at hj
        exact absurd (hj ▸ hi) (hnot i)
      · rw [hother j hje] at hj
        exact h.apart i j a hi hj

/-- One entry of the ledger has a given target. -/
theorem length_released (h : Inv x) (hi : x.holds i = true) :
    (x.held.filter fun e => e.target ≠ i).length + 1 = x.held.length := by
  have hmem : i ∈ x.held.map Held.target := by simpa [Session.holds] using hi
  have hone : (x.held.map Held.target).count i = 1 := List.count_eq_one_of_mem h.nodup hmem
  rw [List.count, List.countP_map] at hone
  rw [List.length_eq_countP_add_countP (fun e => decide (e.target ≠ i)) (l := x.held),
    ← List.countP_eq_length_filter, ← hone]
  congr 1
  apply List.countP_congr
  intro e _
  simp

theorem inv_released {fastdds : SerializedPayload} (hdoc : Documented fastdds) (h : Inv x) (hi : x.holds i = true)
    {r : Bool} (hr : releasePayload fastdds x.pool i = some (r, m)) :
    Inv { pool := m, held := x.held.filter fun e => e.target ≠ i } := by
  have hlen := length_released h hi
  have hcount := h.count
  obtain ⟨e, he, rfl⟩ := holds_iff.mp hi
  obtain ⟨a, chunk, hdata, hmem, -⟩ := h.owns e he
  have hlt := x.pool.reserveCount.isLt
  have hone : (x.pool.releaseCount + 1).toNat = x.pool.releaseCount.toNat + 1 := by bv_omega
  have hroom : ¬ x.pool.reserveCount < x.pool.releaseCount + 1 := by
    rw [BitVec.lt_def]
    omega
  simp only [releasePayload, hdoc.empty_frees _ _ a chunk hdata hmem, Option.map_some, State.addReleasePayload,
    State.setPayload, Option.isSome_none, Bool.false_eq_true, if_false, hroom, Option.some.injEq, Prod.mk.injEq] at hr
  obtain ⟨rfl, rfl⟩ := hr
  have hother : ∀ j, j ≠ e.target → Function.update x.pool.payloads e.target {} j = x.pool.payloads j :=
    fun j hj => Function.update_of_ne hj _ _
  constructor
  · exact h.thrown
  · simp only [hone]
    omega
  · exact h.nodup.sublist (List.filter_sublist.map _)
  · intro e' he'
    obtain ⟨he', hne⟩ := List.mem_filter.mp he'
    have hne : e'.target ≠ e.target := by simpa using hne
    refine owns_congr (h.owns e' he') (hother _ hne) fun a' ha' => ?_
    have haddr : a' ≠ a := fun heq => hne (h.apart _ _ a (heq ▸ ha') hdata)
    simp [haddr]
  · intro j hj
    by_cases hje : j = e.target
    · simp [hje]
    · simp only [hother j hje]
      apply h.blank j
      rw [← Bool.not_eq_true, holds_iff] at hj ⊢
      rintro ⟨e', he', rfl⟩
      exact hj ⟨e', List.mem_filter.mpr ⟨he', by simpa using hje⟩, rfl⟩
  · intro j k a' hj hk
    have hne : ∀ l, (Function.update x.pool.payloads e.target {} l).data = some a' → l ≠ e.target := by
      rintro l hl rfl
      simp at hl
    simp only [hother _ (hne j hj)] at hj
    simp only [hother _ (hne k hk)] at hk
    exact h.apart j k a' hj hk

/-- `memcpy` to memory that is there. -/
theorem memcpy_held {p : Payload} {chunk : List Byte} (hdata : p.data = some a) (hmem : m.memory a = some chunk)
    (bytes : List Byte) :
    memcpy m p bytes = some { m with memory := Function.update m.memory a (some (overwrite chunk bytes)) } := by
  unfold memcpy
  split
  · rename_i hnil
    have hsame : Function.update m.memory a (some (overwrite chunk bytes)) = m.memory := by
      simp [hnil, overwrite, ← hmem]
    rw [hsame]
  · simp [hdata, hmem]

theorem inv_filled (h : Inv x) (hi : x.holds i = true) {bytes : List Byte}
    (hm : memcpy x.pool (x.pool.payloads i) bytes = some m) :
    Inv { pool := m.setPayload i { m.payloads i with length := bytes.length },
          held := x.held.map fun e => if e.target = i then { e with bytes := bytes } else e } := by
  obtain ⟨e, he, rfl⟩ := holds_iff.mp hi
  obtain ⟨a, chunk, hdata, hmem, hlen, hsize, -⟩ := h.owns e he
  rw [memcpy_held hdata hmem, Option.some.injEq] at hm
  subst hm
  have htargets : (x.held.map fun e' => if e'.target = e.target then { e' with bytes := bytes } else e').map Held.target =
      x.held.map Held.target := by
    rw [List.map_map]
    apply List.map_congr_left
    intro e' _
    simp only [Function.comp]
    split <;> rfl
  have hself : Function.update x.pool.payloads e.target { x.pool.payloads e.target with length := bytes.length } e.target =
      ⟨some a, bytes.length, e.maxSize⟩ := by
    simp only [Function.update_self, hdata, hsize]
  have hpointer : ∀ j, (Function.update x.pool.payloads e.target
      { x.pool.payloads e.target with length := bytes.length } j).data = (x.pool.payloads j).data := by
    intro j
    by_cases hj : j = e.target
    · rw [hj, Function.update_self]
    · rw [Function.update_of_ne hj]
  constructor
  · exact h.thrown
  · simpa [State.setPayload] using h.count
  · rw [htargets]
    exact h.nodup
  · intro e₁ he₁
    obtain ⟨e', he', rfl⟩ := List.mem_map.mp he₁
    by_cases heq : e'.target = e.target
    · -- one entry only has this target
      have hsame : e' = e := List.inj_on_of_nodup_map h.nodup he' he heq
      subst hsame
      rw [if_pos rfl]
      refine ⟨a, overwrite chunk bytes, ?_, ?_, ?_, ?_, ?_⟩
      · simp only [State.setPayload, hself]
      · simp [State.setPayload]
      · simp only [State.setPayload, hself]
      · simp only [State.setPayload, hself]
      · simp only [State.setPayload, hself, State.content, Option.bind_some, Function.update_self, Option.getD_some,
          take_overwrite]
    · rw [if_neg heq]
      refine owns_congr (h.owns e' he') (Function.update_of_ne heq _ _) fun a' ha' => ?_
      have haddr : a' ≠ a := fun hsame => heq (h.apart _ _ a (hsame ▸ ha') hdata)
      simp [State.setPayload, haddr]
  · intro j hj
    have hj' : x.holds j = false := by simpa only [Session.holds, htargets] using hj
    have hne : j ≠ e.target := by
      rintro rfl
      simp [hi] at hj'
    exact (Function.update_of_ne hne _ _).trans (h.blank j hj')
  · intro j k a' hj hk
    exact h.apart j k a' ((hpointer j).symm.trans hj) ((hpointer k).symm.trans hk)

end Ledger

/-! ### Runs -/

section Runs

variable {fastdds : SerializedPayload} {x x' : Session} {c : PayloadCall × Address}

/-- A call for a payload: its target is blank. -/
theorem wanted_blank {e : Held} (h : Inv x) (hw : wanted x.pool c.1 = some e) (hwf : WellFormed x c.1 = true) :
    x.holds e.target = false ∧ x.pool.payloads e.target = {} := by
  have hfree : x.holds e.target = false := by
    obtain ⟨call, addr⟩ := c
    cases call with
    | get target size | copy target source | share source target =>
      simp only [WellFormed, hw, Option.all_some, Bool.and_eq_true, Bool.not_eq_true'] at hwf
      exact hwf.1
    | declare | release target | fill target bytes => cases hw
  exact ⟨hfree, h.blank _ hfree⟩

theorem ledger_wanted {e : Held} (hw : wanted x.pool c.1 = some e) : ledger x true c.1 = e :: x.held := by
  obtain ⟨call, addr⟩ := c
  cases call with
  | get target size | copy target source | share source target => simp [ledger, hw]
  | declare | release target | fill target bytes => cases hw

theorem step_inv (hs : step fastdds x c = some x') :
    WellFormed x c.1 = true ∧ ∃ r m, call fastdds x.pool c.2 c.1 = some (r, m) ∧ x' = ⟨m, ledger x r c.1⟩ := by
  simp only [step] at hs
  split at hs
  · rename_i hwf
    obtain ⟨⟨r, m⟩, hcall, rfl⟩ := Option.map_eq_some_iff.mp hs
    exact ⟨hwf, r, m, hcall, rfl⟩
  · cases hs

theorem inv_step (hdoc : Documented fastdds) (h : Inv x) (hc : AsksForBytes x c.1)
    (hs : step fastdds x c = some x') : Inv x' := by
  obtain ⟨hwf, r, m, hcall, rfl⟩ := step_inv hs
  cases hw : wanted x.pool c.1 with
  | some e =>
    obtain ⟨hsize, hroom⟩ := hc e hw
    obtain ⟨hfree, hblank⟩ := wanted_blank h hw hwf
    obtain ⟨rfl, haddr, rfl⟩ := call_wanted hdoc hw hblank hsize hcall
    rw [ledger_wanted hw]
    exact inv_obtained h hfree haddr hroom
  | none =>
    obtain ⟨call, addr⟩ := c
    cases call with
    | get target size | copy target source | share source target => cases hw
    | declare =>
      cases hcall
      exact h
    | release target => exact inv_released hdoc h hwf hcall
    | fill target bytes =>
      simp only [CopyPayloadPool.call] at hcall
      split at hcall
      · obtain ⟨m', hm', heq⟩ := Option.map_eq_some_iff.mp hcall
        cases heq
        exact inv_filled h hwf hm'
      · cases hcall

/-- A payload of no bytes, or one payload too many for the counter, shows at once. -/
theorem asks_of_balanced (hdoc : Documented fastdds) (h : Inv x) (hs : step fastdds x c = some x')
    (hb : Balanced x') : AsksForBytes x c.1 := by
  intro e hw
  obtain ⟨hwf, r, m, hcall, rfl⟩ := step_inv hs
  have hold := h.count
  have hnew := hb.count
  by_cases hsize : e.maxSize = 0
  · obtain ⟨rfl, hres, hrel⟩ := call_zero hw hsize hcall
    simp only [ledger_wanted hw, hres, hrel, List.length_cons] at hnew
    omega
  · obtain ⟨-, hblank⟩ := wanted_blank h hw hwf
    obtain ⟨rfl, -, rfl⟩ := call_wanted hdoc hw hblank hsize hcall
    simp only [ledger_wanted hw, obtained, State.setPayload, List.length_cons] at hnew
    have hlt := x.pool.reserveCount.isLt
    exact ⟨hsize, by bv_omega⟩

/-- The pool is balanced in every state of a sequence of calls exactly when none of
them asks for a payload of no bytes, and there are fewer than 2^64 of them. -/
theorem balanced_iff_asksForBytes (fastdds : SerializedPayload) (hdoc : Documented fastdds)
    (calls : List (PayloadCall × Address)) :
    Visits (step fastdds) Balanced {} calls ↔ Along (step fastdds) (fun x c => AsksForBytes x c.1) {} calls :=
  visits_iff_along (fun _ h => h.balanced) (fun _ _ _ hc h hs => inv_step hdoc h hc hs)
    (fun _ _ _ h hs hb => asks_of_balanced hdoc h hs hb) inv_new calls

end Runs

/-- A payload is copied from outside and another from it; both are released. -/
def copiedTwice : List (PayloadCall × Address) :=
  [(.copy 0 { maxSize := 4, bytes := [1, 2] }, 8), (.share 0 1, 16), (.get 2 3, 24), (.release 0, 0), (.release 2, 0),
    (.release 1, 0)]

theorem balanced_copiedTwice :
    (run (step MapPayloadPool.serializedPayload) {} copiedTwice).isSome = true ∧
      Visits (step MapPayloadPool.serializedPayload) Balanced {} copiedTwice :=
  ⟨by decide, (balanced_iff_asksForBytes MapPayloadPool.serializedPayload
    MapPayloadPool.documented_serializedPayload copiedTwice).mpr (by decide)⟩

/-- A payload of no bytes is obtained and released, and nothing else. -/
def nothingReleased : List (PayloadCall × Address) := [(.get 0 0, 8), (.release 0, 0)]

/-- The release throws, and the pool is not clean although nothing is held. -/
theorem nothing_released_throws :
    ¬ Visits (step MapPayloadPool.serializedPayload) Balanced {} nothingReleased ∧
      ∃ x, run (step MapPayloadPool.serializedPayload) {} nothingReleased = some x ∧ x.held = [] ∧
        x.pool.thrown = true ∧ x.pool.isClean = false := by
  have hrun : ∃ x, run (step MapPayloadPool.serializedPayload) {} nothingReleased = some x ∧ x.held = [] ∧
      x.pool.thrown = true ∧ x.pool.isClean = false := ⟨_, rfl, by decide, by decide, by decide⟩
  refine ⟨fun hv => ?_, hrun⟩
  obtain ⟨x, hx, -, hthrown, -⟩ := hrun
  have hb := (visits_last hv hx).thrown
  simp [hthrown] at hb

end CopyPayloadPool

end DDSRouter
