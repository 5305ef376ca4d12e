import DDSRouter.FastPayloadPool
import DDSRouter.Lib.Sharing

/-!
# The two pools side by side

`MapPayloadPool` keeps the number of references in a map whose keys are the data
pointers, and looks a pointer up before it follows it. Memory is taken and given
back by the payload itself, which is a class of Fast DDS: its `reserve` and
`empty` are parameters here.

A call is made on a `FastPayloadPool` and on a `MapPayloadPool`, each with its own
allocator. Payloads of the two pools are compared by their places.
-/
namespace DDSRouter

namespace MapPayloadPool

open Runs Threads Sharing

abbrev Memory := Address → Option (List Byte)

/-- The member functions of `SerializedPayload_t`, `reserve` with the address that
an allocation gives back. -/
structure SerializedPayload where
  reserve : Memory → Payload → Nat → Address → Option (Memory × Payload)
  empty : Memory → Payload → Option (Memory × Payload)

/-- What the pool relies on: a payload that points nowhere gets memory of its own,
all zero, and a payload that is emptied gives its memory back. -/
structure Documented (fastdds : SerializedPayload) : Prop where
  reserve_blank : ∀ memory size addr, size ≠ 0 → memory addr = none →
    fastdds.reserve memory {} size addr =
      some (Function.update memory addr (some (List.replicate size 0)), { data := some addr, maxSize := size })
  empty_frees : ∀ memory p a chunk, p.data = some a → memory a = some chunk →
    fastdds.empty memory p = some (Function.update memory a none, {})

/-- The key of `reserved_payloads_` is a pointer, which may be null. -/
structure State where
  memory : Memory := fun _ => none
  reservedPayloads : Option Address → Option (BitVec 32) := fun _ => none
  payloads : List Payload := []
  reserveCount : BitVec 64 := 0
  releaseCount : BitVec 64 := 0
  thrown : Bool := false

namespace State

def setPayload (m : State) (i : Nat) (p : Payload) : State := { m with payloads := m.payloads.set i p }

def setCount (m : State) (key : Option Address) (n : Option (BitVec 32)) : State :=
  { m with reservedPayloads := Function.update m.reservedPayloads key n }

def refs (m : State) (a : Address) : Nat := m.payloads.countP fun p => p.data = some a

def content (m : State) (p : Payload) : List Byte := ((p.data.bind m.memory).getD []).take p.length

end State

section Calls

variable (fastdds : SerializedPayload)

/-- `get_payload(size)` with `reserve_`. -/
def getPayload (m : State) (target : Nat) (p : Payload) (size : Nat) (addr : Address) : Option (Bool × State) :=
  if size = 0 then some (false, m)
  else if (m.memory addr).isSome then none
  else
    (fastdds.reserve m.memory p size addr).map fun r =>
      (true, ({ m with memory := r.1, reserveCount := m.reserveCount + 1 }.setCount r.2.data (some 1)).setPayload
        target { r.2 with maxSize := size })

/-- `memcpy` to the memory of a payload, and its new length. -/
def fillPayload (m : State) (target : Nat) (p : Payload) (bytes : List Byte) : Option State :=
  p.data.bind fun a => (m.memory a).map fun chunk =>
    { m with memory := Function.update m.memory a (some (overwrite chunk bytes)) }.setPayload target
      { p with length := bytes.length }

/-- `release_payload` with `release_`. The key is erased after the release has been
counted, so it stays when that throws. -/
def releasePayload (m : State) (target : Nat) (p : Payload) : Option (Bool × State) :=
  match m.reservedPayloads p.data with
  | none => some (false, { m with thrown := true })
  | some n =>
    if n - 1 = 0 then
      (fastdds.empty m.memory p).map fun r =>
        let m' := ({ m with memory := r.1 }.setCount p.data (some 0)).setPayload target r.2
        if r.2.data.isSome then (false, m')
        else if m.reserveCount < m.releaseCount + 1 then
          (false, { m' with releaseCount := m.releaseCount + 1, thrown := true })
        else (true, ({ m' with releaseCount := m.releaseCount + 1 }.setCount p.data none).setPayload target {})
    else some (true, (m.setCount p.data (some (n - 1))).setPayload target {})

def call (m : State) (addr : Address) : PayloadCall → Option (Bool × State)
  | .declare => some (true, { m with payloads := m.payloads ++ [{}] })
  | .get target size => (m.payloads[target]?).bind fun p => getPayload fastdds m target p size addr
  | .copy target source =>
    (m.payloads[target]?).bind fun p =>
      (getPayload fastdds m target p source.maxSize addr).bind fun r =>
        if r.1 then
          (r.2.payloads[target]?).bind fun p => (fillPayload r.2 target p source.bytes).map (Prod.mk true)
        else some r
  | .share source target =>
    (m.payloads[source]?).bind fun p => (m.payloads[target]?).map fun _ =>
      match m.reservedPayloads p.data with
      | none => (false, { m with thrown := true })
      | some n => (true, (m.setCount p.data (some (n + 1))).setPayload target p)
  | .release target => (m.payloads[target]?).bind fun p => releasePayload fastdds m target p
  | .fill target bytes =>
    (m.payloads[target]?).bind fun p =>
      if bytes.length ≤ p.maxSize then (fillPayload m target p bytes).map (Prod.mk true) else none

/-- One call on both pools, with an address of each allocator. -/
def both (x : FastPayloadPool.State × State) (c : PayloadCall × Address × Address) :
    Option (FastPayloadPool.State × State) :=
  (FastPayloadPool.call x.1 c.2.1 c.1).bind fun r => (call fastdds x.2 c.2.2 c.1).map fun r' => (r.2, r'.2)

end Calls

/-- The call can be made: payloads are there, what is shared or released is held,
no one writes beyond a block, and the allocators give memory that is not in use. -/
def WellFormed (s : FastPayloadPool.State) (m : State) (a b : Address) : PayloadCall → Prop
  | .declare => True
  | .get target size => (s.payloads[target]?).isSome = true ∧ (size ≠ 0 → s.blocks a = none ∧ m.memory b = none)
  | .copy target source => (s.payloads[target]?).isSome = true ∧ source.bytes.length ≤ source.maxSize ∧
      (source.maxSize ≠ 0 → s.blocks a = none ∧ m.memory b = none)
  | .share source target => (names Payload.data s.payloads source).isSome = true ∧
      (s.payloads[target]?).isSome = true
  | .release target => (names Payload.data s.payloads target).isSome = true
  | .fill target bytes => (names Payload.data s.payloads target).isSome = true ∧
      ∀ p ∈ s.payloads[target]?, bytes.length ≤ p.maxSize

/-- What can be seen of the two pools is the same. -/
structure Agree (s : FastPayloadPool.State) (m : State) : Prop where
  payloads : (s.payloads.map fun p => (p.length, p.maxSize, s.content p)) =
    m.payloads.map fun p => (p.length, p.maxSize, m.content p)
  sharing : Same (names Payload.data s.payloads) (names Payload.data m.payloads)
  reserveCount : s.reserveCount = m.reserveCount
  releaseCount : s.releaseCount = m.releaseCount
  fast : s.thrown = false
  map : m.thrown = false

/-- The pools agree, and any call that is well formed and meets the condition `C`
has the same result on both and leaves them in agreement. -/
def Interchangeable (fastdds : SerializedPayload) (C : FastPayloadPool.State → PayloadCall → Prop)
    (s : FastPayloadPool.State) (m : State) : Prop :=
  Agree s m ∧ ∀ c a b, WellFormed s m a b c → C s c → ∃ r s' m',
    FastPayloadPool.call s a c = some (r, s') ∧ call fastdds m b c = some (r, m') ∧ Agree s' m'

/-- The map has a count for the memory that payloads refer to, which is their
number, and the rest of the memory is free. -/
def Counted (m : State) (a : Address) : Prop :=
  m.refs a = 0 ∧ m.memory a = none ∧ m.reservedPayloads (some a) = none ∨
    0 < m.refs a ∧ (m.memory a).isSome = true ∧ ∃ n, m.reservedPayloads (some a) = some n ∧ n.toNat = m.refs a

def Inv (m : State) : Prop := ∀ a, Counted m a

section Map

variable {m m' : State} {i : Nat} {p q : Payload} {a b : Address}

theorem refs_set (hi : m.payloads[i]? = some p) (hm : m'.payloads = m.payloads.set i q) (a : Address) :
    m'.refs a + (decide (p.data = some a)).toNat = m.refs a + (decide (q.data = some a)).toNat := by
  rw [State.refs, hm]
  exact countP_advance (fun p : Payload => decide (p.data = some a)) hi (some q)

theorem refs_pos_of_mem (h : p ∈ m.payloads) (hp : p.data = some a) : 0 < m.refs a :=
  List.countP_pos_iff.mpr ⟨p, h, by simpa using hp⟩

/-- Memory that is not in use is pointed to by no payload. -/
theorem Inv.free (h : Inv m) (hfree : m.memory b = none) :
    m.refs b = 0 ∧ ∀ p ∈ m.payloads, p.data ≠ some b := by
  have hzero : m.refs b = 0 := by
    rcases h b with ⟨hz, -, -⟩ | ⟨-, hsome, -⟩
    · exact hz
    · simp [hfree] at hsome
  refine ⟨hzero, fun p hp hd => ?_⟩
  have := refs_pos_of_mem hp hd
  omega

/-- The memory and the count of a payload that points somewhere. -/
theorem Inv.held (h : Inv m) (hi : m.payloads[i]? = some p) (hp : p.data = some a) :
    0 < m.refs a ∧ (∃ chunk, m.memory a = some chunk) ∧
      ∃ n, m.reservedPayloads (some a) = some n ∧ n.toNat = m.refs a := by
  have hpos := refs_pos_of_mem (List.mem_of_getElem? hi) hp
  rcases h a with ⟨hz, -, -⟩ | ⟨-, hsome, hn⟩
  · omega
  · exact ⟨hpos, Option.isSome_iff_exists.mp hsome, hn⟩

/-- Changes at one address leave what is known about the others. -/
theorem inv_at (h : Inv m) (x : Address) (hmem : ∀ y, y ≠ x → m'.memory y = m.memory y)
    (hkey : ∀ y, y ≠ x → m'.reservedPayloads (some y) = m.reservedPayloads (some y))
    (hrefs : ∀ y, y ≠ x → m'.refs y = m.refs y) (hx : Counted m' x) : Inv m' := by
  intro y
  by_cases hy : y = x
  · rw [hy]
    exact hx
  · have hc := h y
    unfold Counted at hc ⊢
    rw [hmem y hy, hkey y hy, hrefs y hy]
    exact hc

/-- A new count of one, for memory that nobody pointed to. -/
theorem inv_reserved (size : Nat) (h : Inv m) (hi : m.payloads[i]? = some {}) (hfree : m.memory b = none)
    (hmem : m'.memory = Function.update m.memory b (some (List.replicate size 0)))
    (hkey : m'.reservedPayloads = Function.update m.reservedPayloads (some b) (some 1))
    (hpay : m'.payloads = m.payloads.set i { data := some b, maxSize := size }) : Inv m' := by
  obtain ⟨hzero, -⟩ := h.free hfree
  have hrefs := refs_set hi hpay
  simp only [reduceCtorEq, decide_false, Bool.toNat_false, Nat.add_zero, Option.some.injEq] at hrefs
  refine inv_at h b (fun y hy => by simp [hmem, hy]) (fun y hy => by simp [hkey, hy])
    (fun y hy => by simp [hrefs y, Ne.symm hy]) (.inr ⟨?_, ?_, 1, ?_, ?_⟩)
  · simp [hrefs b]
  · simp [hmem]
  · simp [hkey]
  · simp [hrefs b, hzero]

/-- Writing to the memory of a payload changes no reference. -/
theorem inv_filled {chunk : List Byte} (h : Inv m) (hi : m.payloads[i]? = some p) (hp : p.data = some b)
    (hq : q.data = some b) (hmem : m'.memory = Function.update m.memory b (some chunk))
    (hkey : m'.reservedPayloads = m.reservedPayloads) (hpay : m'.payloads = m.payloads.set i q) : Inv m' := by
  obtain ⟨hpos, -, hn⟩ := h.held hi hp
  have hrefs : ∀ y, m'.refs y = m.refs y := by
    intro y
    have := refs_set hi hpay y
    rw [hp, hq] at this
    exact Nat.add_right_cancel this
  refine inv_at h b (fun y hy => by simp [hmem, hy]) (fun y _ => by rw [hkey]) (fun y _ => hrefs y)
    (.inr ⟨?_, ?_, ?_⟩)
  · rw [hrefs]
    exact hpos
  · simp [hmem]
  · rw [hkey, hrefs]
    exact hn

/-- One more payload points to the memory, and the count says so. -/
theorem inv_shared {n : BitVec 32} (h : Inv m) {j : Nat} (hj : m.payloads[j]? = some p) (hp : p.data = some b)
    (hi : m.payloads[i]? = some {}) (hn : m.reservedPayloads (some b) = some n) (hroom : m.refs b + 1 < 2 ^ 32)
    (hmem : m'.memory = m.memory)
    (hkey : m'.reservedPayloads = Function.update m.reservedPayloads (some b) (some (n + 1)))
    (hpay : m'.payloads = m.payloads.set i p) : Inv m' := by
  obtain ⟨hpos, ⟨chunk, hchunk⟩, n', hn', hcount⟩ := h.held hj hp
  rw [hn, Option.some.injEq] at hn'
  subst hn'
  have hrefs := refs_set hi hpay
  simp only [reduceCtorEq, decide_false, Bool.toNat_false, Nat.add_zero, hp, Option.some.injEq] at hrefs
  refine inv_at h b (fun y _ => by rw [hmem]) (fun y hy => by simp [hkey, hy])
    (fun y hy => by simp [hrefs y, Ne.symm hy]) (.inr ⟨?_, ?_, n + 1, ?_, ?_⟩)
  · simp [hrefs b]
  · simp [hmem, hchunk]
  · simp [hkey]
  · have hone : (1 : BitVec 32).toNat = 1 := rfl
    rw [hrefs b, BitVec.toNat_add, hone, hcount]
    simpa using hroom

/-- The last payload gives its memory back. -/
theorem inv_freed (h : Inv m) (hi : m.payloads[i]? = some p) (hp : p.data = some b) (hone : m.refs b = 1)
    (hmem : m'.memory = Function.update m.memory b none)
    (hkey : ∀ y, m'.reservedPayloads (some y) = if y = b then none else m.reservedPayloads (some y))
    (hpay : m'.payloads = m.payloads.set i {}) : Inv m' := by
  have hrefs := refs_set hi hpay
  simp only [reduceCtorEq, decide_false, Bool.toNat_false, Nat.add_zero, hp, Option.some.injEq] at hrefs
  refine inv_at h b (fun y hy => by simp [hmem, hy]) (fun y hy => by simp [hkey, hy]) (fun y hy => ?_)
    (.inl ⟨?_, ?_, ?_⟩)
  · have := hrefs y
    simpa [Ne.symm hy] using this
  · have := hrefs b
    simp only [decide_true, Bool.toNat_true, hone] at this
    omega
  · simp [hmem]
  · simp [hkey]

/-- A payload goes and others stay. -/
theorem inv_released {n : BitVec 32} (h : Inv m) (hi : m.payloads[i]? = some p) (hp : p.data = some b)
    (hn : m.reservedPayloads (some b) = some n) (hmore : 1 < m.refs b) (hmem : m'.memory = m.memory)
    (hkey : m'.reservedPayloads = Function.update m.reservedPayloads (some b) (some (n - 1)))
    (hpay : m'.payloads = m.payloads.set i {}) : Inv m' := by
  obtain ⟨-, ⟨chunk, hchunk⟩, n', hn', hcount⟩ := h.held hi hp
  rw [hn, Option.some.injEq] at hn'
  subst hn'
  have hrefs := refs_set hi hpay
  simp only [reduceCtorEq, decide_false, Bool.toNat_false, Nat.add_zero, hp, Option.some.injEq] at hrefs
  have hless : m'.refs b + 1 = m.refs b := by
    have := hrefs b
    simpa using this
  refine inv_at h b (fun y _ => by rw [hmem]) (fun y hy => by simp [hkey, hy]) (fun y hy => ?_)
    (.inr ⟨by omega, ?_, n - 1, ?_, ?_⟩)
  · have := hrefs y
    simpa [Ne.symm hy] using this
  · simp [hmem, hchunk]
  · simp [hkey]
  · have hone : (1 : BitVec 32).toNat = 1 := rfl
    have hlt := n.isLt
    rw [BitVec.toNat_sub, hone]
    omega

/-- The decremented count is zero for the last reference only. -/
theorem count_last {n : BitVec 32} (hcount : n.toNat = m.refs b) (hpos : 0 < m.refs b) :
    n - 1 = 0 ↔ m.refs b = 1 := by
  have hone : (1 : BitVec 32).toNat = 1 := rfl
  have hzero : (0 : BitVec 32).toNat = 0 := rfl
  have hlt := n.isLt
  rw [← BitVec.toNat_inj, BitVec.toNat_sub, hone, hzero]
  omega

end Map

section Agreement

variable {s s' : FastPayloadPool.State} {m m' : State} {i : Nat} {p p' q q' : Payload} {a b : Address}

theorem Agree.length_eq (h : Agree s m) : s.payloads.length = m.payloads.length := by
  simpa using congrArg List.length h.payloads

/-- The payload at the same place of the other pool. -/
theorem Agree.at_place (h : Agree s m) (hi : s.payloads[i]? = some p) :
    ∃ p', m.payloads[i]? = some p' ∧ p'.length = p.length ∧ p'.maxSize = p.maxSize ∧
      m.content p' = s.content p := by
  have hk := congrArg (fun l => l[i]?) h.payloads
  simp only [List.getElem?_map, hi, Option.map_some] at hk
  obtain ⟨p', hp', heq⟩ := Option.map_eq_some_iff.mp hk.symm
  simp only [Prod.mk.injEq] at heq
  exact ⟨p', hp', heq.1, heq.2.1, heq.2.2⟩

theorem Agree.blank (h : Agree s m) (hi : s.payloads[i]? = some {}) : m.payloads[i]? = some {} := by
  obtain ⟨p', hp', hlen, hsize, -⟩ := h.at_place hi
  have hdata : p'.data = none := by
    have := h.sharing.eq_none (j := i) (by simp [names, hi])
    simpa [names, hp'] using this
  rw [hp']
  cases p'
  simp_all

/-- The block at the same place has as many references. -/
theorem Agree.block (h : Agree s m) (hi : s.payloads[i]? = some p) (hp : p.data = some a)
    (hi' : m.payloads[i]? = some p') : ∃ b, p'.data = some b ∧ m.refs b = s.refs a := by
  have ha : names Payload.data s.payloads i = some a := by rw [names_at hi, hp]
  obtain ⟨b, hb⟩ := h.sharing.exists_name ha
  refine ⟨b, by rw [← hb, names_at hi'], ?_⟩
  exact (h.sharing.countP_eq h.length_eq ha hb).symm

/-- One payload is replaced in each pool, and the others look as before. -/
theorem payloads_set (h : Agree s m) (hi : i < s.payloads.length) (hs : s'.payloads = s.payloads.set i q)
    (hm : m'.payloads = m.payloads.set i q')
    (hq : q.length = q'.length ∧ q.maxSize = q'.maxSize ∧ s'.content q = m'.content q')
    (hold : ∀ k, k ≠ i → ∀ p, s.payloads[k]? = some p → s'.content p = s.content p)
    (hold' : ∀ k, k ≠ i → ∀ p, m.payloads[k]? = some p → m'.content p = m.content p) :
    (s'.payloads.map fun p => (p.length, p.maxSize, s'.content p)) =
      m'.payloads.map fun p => (p.length, p.maxSize, m'.content p) := by
  have hi' : i < m.payloads.length := h.length_eq ▸ hi
  refine List.ext_getElem? fun k => ?_
  rw [hs, hm, List.getElem?_map, List.getElem?_map]
  by_cases hk : k = i
  · rw [hk, List.getElem?_set_self hi, List.getElem?_set_self hi', Option.map_some, Option.map_some,
      hq.1, hq.2.1, hq.2.2]
  · rw [List.getElem?_set_ne (Ne.symm hk), List.getElem?_set_ne (Ne.symm hk)]
    have hsame := congrArg (fun l => l[k]?) h.payloads
    simp only [List.getElem?_map] at hsame
    cases hp : s.payloads[k]? with
    | none => simpa [hp] using hsame
    | some p =>
      obtain ⟨p', hp', hlen, hsize, hcont⟩ := h.at_place hp
      rw [hp', Option.map_some, Option.map_some, hold k hk p hp, hold' k hk p' hp', hlen, hsize, hcont]

theorem fast_content (hb : ∀ x, p.data = some x → (s'.blocks x).map FastPayloadPool.Block.bytes =
    (s.blocks x).map FastPayloadPool.Block.bytes) : s'.content p = s.content p := by
  unfold FastPayloadPool.State.content
  cases hd : p.data with
  | none => rfl
  | some x =>
    have hx := hb x hd
    cases h' : s'.blocks x <;> cases h : s.blocks x <;> simp_all

theorem map_content (hb : ∀ x, p.data = some x → m'.memory x = m.memory x) : m'.content p = m.content p := by
  unfold State.content
  cases hd : p.data with
  | none => rfl
  | some x => rw [Option.bind_some, Option.bind_some, hb x hd]

theorem fast_content_at {block : FastPayloadPool.Block} (hp : p.data = some a) (hb : s.blocks a = some block) :
    s.content p = block.bytes.take p.length := by
  simp [FastPayloadPool.State.content, hp, hb]

theorem map_content_at (chunk : List Byte) (hp : p.data = some a) (hb : m.memory a = some chunk) :
    m.content p = chunk.take p.length := by
  simp [State.content, hp, hb]

/-- A block without references is pointed to by no payload. -/
theorem fast_free (hF : FastPayloadPool.Inv s) (hfree : s.blocks a = none) : ∀ p ∈ s.payloads, p.data ≠ some a := by
  intro p hp hd
  have hlive := (hF.live a).mpr (FastPayloadPool.refs_pos_of_mem hp hd)
  simp [hfree] at hlive

/-- Where one payload points to a block, those at other places do not. -/
theorem data_ne_of_refs_one {l : List Payload} (hone : (l.countP fun p => p.data = some a) = 1)
    (hi : l[i]? = some p) (hp : p.data = some a) {k : Nat} (hk : k ≠ i) (hq : l[k]? = some q) :
    q.data ≠ some a := by
  intro hd
  exact hk (eq_of_countP_le_one hone.le hq hi (by simpa using hd) (by simpa using hp))

end Agreement

section Operations

variable {fastdds : SerializedPayload} (hdoc : Documented fastdds)
variable {s s' : FastPayloadPool.State} {m m' : State} {i : Nat} {p p' : Payload} {a b : Address} {r : Bool}

include hdoc in
/-- A new block in each pool. -/
theorem get_agrees {size : Nat} (hF : FastPayloadPool.Inv s) (hM : Inv m) (h : Agree s m)
    (hi : s.payloads[i]? = some {}) (hfree : size ≠ 0 → m.memory b = none)
    (hs : FastPayloadPool.getPayload s i {} size a = some (r, s')) :
    ∃ m', getPayload fastdds m i {} size b = some (r, m') ∧ Inv m' ∧ Agree s' m' := by
  unfold FastPayloadPool.getPayload at hs
  unfold getPayload
  split at hs
  · rename_i hsize
    cases hs
    exact ⟨m, by rw [if_pos hsize], hM, h⟩
  · rename_i hsize
    split at hs
    · cases hs
    · rename_i hused
      cases hs
      have hfree := hfree hsize
      rw [if_neg hsize, if_neg (by simp [hfree]), hdoc.reserve_blank _ _ _ hsize hfree, Option.map_some]
      refine ⟨_, rfl, inv_reserved size hM (h.blank hi) hfree rfl rfl rfl, ?_⟩
      have hlt := (List.getElem?_eq_some_iff.mp hi).1
      have hnew := fast_free hF (by simpa using hused)
      have hnew' := (hM.free hfree).2
      refine ⟨payloads_set h hlt rfl rfl ⟨rfl, rfl, rfl⟩ (fun k _ p hp => fast_content fun x hx => ?_)
        (fun k _ p hp => map_content fun x hx => ?_), ?_, ?_, h.releaseCount, h.fast, h.map⟩
      · have hxa : x ≠ a := fun hxa => hnew p (List.mem_of_getElem? hp) (hxa ▸ hx)
        simp [FastPayloadPool.State.setPayload, FastPayloadPool.State.setBlock, hxa]
      · have hxb : x ≠ b := fun hxb => hnew' p (List.mem_of_getElem? hp) (hxb ▸ hx)
        simp [State.setPayload, State.setCount, hxb]
      · change Same (names _ (s.payloads.set i _)) (names _ (m.payloads.set i _))
        rw [names_set hlt, names_set (h.length_eq ▸ hlt)]
        exact h.sharing.fresh i (names_ne_of_forall hnew) (names_ne_of_forall hnew')
      · change s.reserveCount + 1 = m.reserveCount + 1
        rw [h.reserveCount]

/-- A block with one payload is written in each pool. -/
theorem fill_agrees {bytes : List Byte} (hM : Inv m) (h : Agree s m) (hi : s.payloads[i]? = some p)
    (hi' : m.payloads[i]? = some p') (hone : ∀ a ∈ p.data, s.refs a = 1)
    (hs : FastPayloadPool.fillPayload s i p bytes = some s') :
    ∃ m', fillPayload m i p' bytes = some m' ∧ Inv m' ∧ Agree s' m' := by
  simp only [FastPayloadPool.fillPayload, Option.bind_eq_some_iff, Option.map_eq_some_iff] at hs
  obtain ⟨a, ha, block, hblock, rfl⟩ := hs
  obtain ⟨b, hb, hrefs⟩ := h.block hi ha hi'
  obtain ⟨-, ⟨chunk, hchunk⟩, -⟩ := hM.held hi' hb
  have hone := hone a ha
  simp only [fillPayload, hb, Option.bind_some, hchunk, Option.map_some]
  refine ⟨_, rfl, inv_filled hM hi' hb rfl rfl rfl rfl, ?_⟩
  have hlt := (List.getElem?_eq_some_iff.mp hi).1
  obtain ⟨p'', hp'', -, hsize, -⟩ := h.at_place hi
  rw [hi', Option.some.injEq] at hp''
  subst hp''
  refine ⟨payloads_set h hlt rfl rfl ⟨rfl, hsize.symm, ?_⟩ (fun k hk q hq => fast_content fun x hx => ?_)
    (fun k hk q hq => map_content fun x hx => ?_), ?_, h.reserveCount, h.releaseCount, h.fast, h.map⟩
  · refine (fast_content_at (p := { p with length := bytes.length }) ha (if_pos rfl)).trans ?_
    refine Eq.trans ?_ (map_content_at (overwrite chunk bytes) rfl (by simp [State.setPayload])).symm
    exact (take_overwrite block.bytes bytes).trans (take_overwrite chunk bytes).symm
  · have hxa : x ≠ a := fun hxa => data_ne_of_refs_one hone hi ha hk hq (hxa ▸ hx)
    simp [FastPayloadPool.State.setPayload, FastPayloadPool.State.setBlock, hxa]
  · have hxb : x ≠ b := fun hxb => data_ne_of_refs_one (hrefs.trans hone) hi' hb hk hq (hxb ▸ hx)
    simp [State.setPayload, hxb]
  · change Same (names _ (s.payloads.set i _)) (names _ (m.payloads.set i _))
    rw [names_set hlt, names_set (h.length_eq ▸ hlt)]
    have hsame := h.sharing.alias i i
    rwa [names_at hi, names_at hi', hb] at hsame

/-- The target gets the block of the source in each pool. -/
theorem share_agrees {j : Nat} {block : FastPayloadPool.Block} (hM : Inv m) (h : Agree s m)
    (hj : s.payloads[j]? = some p) (hj' : m.payloads[j]? = some p') (hp : p.data = some a)
    (hblock : s.blocks a = some block) (hi : s.payloads[i]? = some {}) (hroom : s.refs a + 1 < 2 ^ 32) :
    ∃ b n, p'.data = some b ∧ m.reservedPayloads (some b) = some n ∧
      Inv ((m.setCount (some b) (some (n + 1))).setPayload i p') ∧
      Agree ((s.setBlock a (some { block with counter := block.counter + 1 })).setPayload i p)
        ((m.setCount (some b) (some (n + 1))).setPayload i p') := by
  obtain ⟨b, hb, hrefs⟩ := h.block hj hp hj'
  obtain ⟨-, -, n, hn, -⟩ := hM.held hj' hb
  refine ⟨b, n, hb, hn, inv_shared hM hj' hb (h.blank hi) hn (hrefs ▸ hroom) rfl rfl rfl, ?_⟩
  have hlt := (List.getElem?_eq_some_iff.mp hi).1
  obtain ⟨p'', hp'', hlen, hsize, hcont⟩ := h.at_place hj
  rw [hj', Option.some.injEq] at hp''
  subst hp''
  -- only the counter of the block has changed
  have hfast : ∀ q, FastPayloadPool.State.content
      ((s.setBlock a (some { block with counter := block.counter + 1 })).setPayload i p) q = s.content q := by
    intro q
    refine fast_content fun x _ => ?_
    by_cases hx : x = a
    · simp [FastPayloadPool.State.setPayload, FastPayloadPool.State.setBlock, hx, hblock]
    · simp [FastPayloadPool.State.setPayload, FastPayloadPool.State.setBlock, hx]
  refine ⟨payloads_set h hlt rfl rfl ⟨hlen.symm, hsize.symm, ?_⟩ (fun k _ q _ => hfast q)
    (fun k _ q _ => map_content fun x _ => rfl), ?_, h.reserveCount, h.releaseCount, h.fast, h.map⟩
  · rw [hfast, ← hcont]
    exact (map_content fun x _ => rfl).symm
  · change Same (names _ (s.payloads.set i _)) (names _ (m.payloads.set i _))
    rw [names_set hlt, names_set (h.length_eq ▸ hlt)]
    have hsame := h.sharing.alias i j
    rwa [names_at hj, names_at hj'] at hsame

include hdoc in
/-- The block of a payload is freed in both pools or in none. -/
theorem release_agrees (hF : FastPayloadPool.Inv s) (hM : Inv m) (h : Agree s m)
    (hi : s.payloads[i]? = some p) (hi' : m.payloads[i]? = some p') (hnext : s'.thrown = false)
    (hs : FastPayloadPool.releasePayload s i p = some s') :
    ∃ m', releasePayload fastdds m i p' = some (true, m') ∧ Inv m' ∧ Agree s' m' := by
  simp only [FastPayloadPool.releasePayload, Option.bind_eq_some_iff, Option.map_eq_some_iff] at hs
  obtain ⟨a, ha, block, hblock, hs⟩ := hs
  obtain ⟨b, hb, hrefs⟩ := h.block hi ha hi'
  obtain ⟨hpos, ⟨chunk, hchunk⟩, n, hn, hcount⟩ := hM.held hi' hb
  have hlt := (List.getElem?_eq_some_iff.mp hi).1
  have hlast := FastPayloadPool.counter_last hF hblock (hrefs ▸ hpos)
  have hlast' := count_last hcount hpos
  have hclear : Same (names Payload.data (s.payloads.set i {})) (names Payload.data (m.payloads.set i {})) := by
    rw [names_set hlt, names_set (h.length_eq ▸ hlt)]
    exact h.sharing.clear i
  simp only [releasePayload, hb, hn]
  by_cases hone : s.refs a = 1
  · rw [if_pos (hlast.mpr hone)] at hs
    subst hs
    rw [if_pos (hlast'.mpr (hrefs.trans hone)), hdoc.empty_frees _ _ _ _ hb hchunk, Option.map_some]
    have hcounted : ¬ m.reserveCount < m.releaseCount + 1 := by
      have hthrown : (s.thrown || decide (s.reserveCount < s.releaseCount + 1)) = false := hnext
      rw [h.reserveCount, h.releaseCount, Bool.or_eq_false_iff] at hthrown
      exact of_decide_eq_false hthrown.2
    simp only [Option.isSome_none, Bool.false_eq_true, if_false, if_neg hcounted]
    refine ⟨_, rfl, inv_freed hM hi' hb (hrefs.trans hone) rfl (fun y => ?_) ?_, ?_⟩
    · by_cases hy : y = b
      · simp [State.setPayload, State.setCount, hy]
      · simp [State.setPayload, State.setCount, hy]
    · simp [State.setPayload, State.setCount]
    · refine ⟨payloads_set h hlt rfl ?_ ⟨rfl, rfl, rfl⟩ (fun k hk q hq => fast_content fun x hx => ?_)
        (fun k hk q hq => map_content fun x hx => ?_), ?_, h.reserveCount, ?_, hnext, h.map⟩
      · simp [State.setPayload, State.setCount]
      · have hxa : x ≠ a := fun hxa => data_ne_of_refs_one hone hi ha hk hq (hxa ▸ hx)
        simp [FastPayloadPool.State.addReleasePayload, FastPayloadPool.State.setPayload,
          FastPayloadPool.State.setBlock, hxa]
      · have hxb : x ≠ b := fun hxb => data_ne_of_refs_one (hrefs.trans hone) hi' hb hk hq (hxb ▸ hx)
        simp [State.setPayload, State.setCount, hxb]
      · simpa [State.setPayload, State.setCount, FastPayloadPool.State.addReleasePayload,
          FastPayloadPool.State.setPayload, FastPayloadPool.State.setBlock] using hclear
      · change s.releaseCount + 1 = m.releaseCount + 1
        rw [h.releaseCount]
  · rw [if_neg fun hz => hone (hlast.mp hz)] at hs
    subst hs
    rw [if_neg fun hz => hone (hrefs.symm.trans (hlast'.mp hz))]
    refine ⟨_, rfl, inv_released hM hi' hb hn (by omega) rfl rfl rfl, ?_⟩
    refine ⟨payloads_set h hlt rfl rfl ⟨rfl, rfl, rfl⟩ (fun k _ q _ => fast_content fun x _ => ?_)
      (fun k _ q _ => map_content fun x _ => rfl), hclear, h.reserveCount, h.releaseCount, h.fast, h.map⟩
    by_cases hx : x = a
    · simp [FastPayloadPool.State.setPayload, FastPayloadPool.State.setBlock, hx, hblock]
    · simp [FastPayloadPool.State.setPayload, FastPayloadPool.State.setBlock, hx]

/-- The memory for a new block is not in use. -/
def Allocates (m : State) (b : Address) : PayloadCall → Prop
  | .get _ size => size ≠ 0 → m.memory b = none
  | .copy _ source => source.maxSize ≠ 0 → m.memory b = none
  | .declare | .share _ _ | .release _ | .fill _ _ => True

theorem getPayload_allocates {size : Nat} {x : Bool × State}
    (hs : getPayload fastdds m i p size b = some x) (hsize : size ≠ 0) : m.memory b = none := by
  unfold getPayload at hs
  rw [if_neg hsize] at hs
  split at hs
  · cases hs
  · rename_i hfree
    simpa using hfree

theorem allocates_of_call {c : PayloadCall} {x : Bool × State} (hs : call fastdds m b c = some x) :
    Allocates m b c := by
  cases c with
  | get target size =>
    simp only [call, Option.bind_eq_some_iff] at hs
    obtain ⟨p, -, hs⟩ := hs
    exact getPayload_allocates hs
  | copy target source =>
    simp only [call, Option.bind_eq_some_iff] at hs
    obtain ⟨p, -, y, hget, -⟩ := hs
    exact getPayload_allocates hget
  | _ => trivial

include hdoc in
/-- A call on the `FastPayloadPool` has its counterpart on the `MapPayloadPool`. -/
theorem call_agrees {c : PayloadCall} (hF : FastPayloadPool.Inv s) (hM : Inv m) (h : Agree s m)
    (hproper : FastPayloadPool.Proper s c) (hreserve : FastPayloadPool.FewReservations s c)
    (hrefs : FastPayloadPool.FewReferences s c) (halloc : Allocates m b c)
    (hs : FastPayloadPool.call s a c = some (r, s')) :
    ∃ m', call fastdds m b c = some (r, m') ∧ Inv m' ∧ Agree s' m' := by
  have hnext := (FastPayloadPool.inv_call hF hproper hreserve hrefs hs).thrown
  cases c with
  | declare =>
    cases hs
    refine ⟨_, rfl, fun x => ?_, ?_, ?_, h.reserveCount, h.releaseCount, h.fast, h.map⟩
    · have hx := hM x
      simpa [Counted, State.refs, List.countP_append] using hx
    · rw [List.map_append, List.map_append]
      exact congrArg₂ (· ++ ·) h.payloads rfl
    · simp only [names_append (show Payload.data {} = none from rfl)]
      exact h.sharing
  | get target size =>
    simp only [FastPayloadPool.Proper] at hproper
    simp only [FastPayloadPool.call, hproper, Option.bind_some] at hs
    simp only [call, h.blank hproper, Option.bind_some]
    exact get_agrees hdoc hF hM h hproper halloc hs
  | copy target source =>
    simp only [FastPayloadPool.Proper] at hproper
    simp only [FastPayloadPool.call, hproper.1, Option.bind_some, Option.bind_eq_some_iff] at hs
    obtain ⟨⟨r₁, s₁⟩, hget, hs⟩ := hs
    obtain ⟨m₁, hget', hM₁, h₁⟩ := get_agrees hdoc hF hM h hproper.1 halloc hget
    simp only [call, h.blank hproper.1, Option.bind_some, hget']
    obtain ⟨-, ⟨rfl, -, rfl⟩ | ⟨rfl, -, hone, hat, -⟩⟩ := FastPayloadPool.inv_getPayload hF hproper.1 hreserve hget
    · cases hs
      exact ⟨m₁, rfl, hM₁, h₁⟩
    · simp only [if_true, hat, Option.bind_some, Option.map_eq_some_iff] at hs
      obtain ⟨s₂, hfill, hs⟩ := hs
      cases hs
      obtain ⟨p', hat', -⟩ := h₁.at_place hat
      obtain ⟨m₂, hfill', hM₂, h₂⟩ := fill_agrees hM₁ h₁ hat hat' (fun x hx => by cases hx; exact hone) hfill
      exact ⟨m₂, by simp [hat', hfill'], hM₂, h₂⟩
  | share source target =>
    simp only [FastPayloadPool.call, Option.bind_eq_some_iff, Option.map_eq_some_iff] at hs
    obtain ⟨p, hp, x, hx, block, hblock, q, hq, hs⟩ := hs
    cases hs
    obtain ⟨p', hp', -⟩ := h.at_place hp
    obtain ⟨y, n, hy, hn, hM', h'⟩ := share_agrees hM h hp hp' hx hblock hproper (hrefs p hp x hx)
    exact ⟨_, by simp [call, hp', h.blank hproper, hy, hn], hM', h'⟩
  | release target =>
    simp only [FastPayloadPool.call, Option.bind_eq_some_iff, Option.map_eq_some_iff] at hs
    obtain ⟨p, hp, t, hrel, hs⟩ := hs
    cases hs
    obtain ⟨p', hp', -⟩ := h.at_place hp
    simp only [call, hp', Option.bind_some]
    exact release_agrees hdoc hF hM h hp hp' hnext hrel
  | fill target bytes =>
    simp only [FastPayloadPool.call, Option.bind_eq_some_iff] at hs
    obtain ⟨p, hp, hs⟩ := hs
    split at hs
    · rename_i hlen
      simp only [Option.map_eq_some_iff] at hs
      obtain ⟨t, hfill, hs⟩ := hs
      cases hs
      obtain ⟨p', hp', -, hsize, -⟩ := h.at_place hp
      obtain ⟨m', hfill', hM', h'⟩ := fill_agrees hM h hp hp' (fun x hx => (hproper p hp x hx).1) hfill
      exact ⟨m', by simp [call, hp', hsize, hlen, hfill'], hM', h'⟩
    · cases hs

/-- A well-formed call on the `FastPayloadPool` follows no bad pointer. -/
theorem fast_defined {c : PayloadCall} (hF : FastPayloadPool.Inv s) (hwf : WellFormed s m a b c) :
    ∃ r s', FastPayloadPool.call s a c = some (r, s') := by
  cases c with
  | declare => exact ⟨_, _, rfl⟩
  | get target size =>
    obtain ⟨p, hp⟩ := Option.isSome_iff_exists.mp hwf.1
    simp only [FastPayloadPool.call, FastPayloadPool.getPayload, hp, Option.bind_some]
    by_cases hsize : size = 0
    · simp [hsize]
    · simp [hsize, (hwf.2 hsize).1]
  | copy target source =>
    obtain ⟨p, hp⟩ := Option.isSome_iff_exists.mp hwf.1
    have hlt := (List.getElem?_eq_some_iff.mp hp).1
    simp only [FastPayloadPool.call, FastPayloadPool.getPayload, hp, Option.bind_some]
    by_cases hsize : source.maxSize = 0
    · simp [hsize]
    · simp [hsize, (hwf.2.2 hsize).1, FastPayloadPool.fillPayload, FastPayloadPool.State.setPayload,
        FastPayloadPool.State.setBlock, hlt]
  | share source target =>
    obtain ⟨x, hx⟩ := Option.isSome_iff_exists.mp hwf.1
    obtain ⟨q, hq⟩ := Option.isSome_iff_exists.mp hwf.2
    obtain ⟨p, hp, hpx⟩ := Option.bind_eq_some_iff.mp hx
    obtain ⟨block, hblock, -⟩ := hF.block hp hpx
    simp [FastPayloadPool.call, hp, hpx, hblock, hq]
  | release target =>
    obtain ⟨x, hx⟩ := Option.isSome_iff_exists.mp hwf
    obtain ⟨p, hp, hpx⟩ := Option.bind_eq_some_iff.mp hx
    obtain ⟨block, hblock, -⟩ := hF.block hp hpx
    simp [FastPayloadPool.call, FastPayloadPool.releasePayload, hp, hpx, hblock]
  | fill target bytes =>
    obtain ⟨x, hx⟩ := Option.isSome_iff_exists.mp hwf.1
    obtain ⟨p, hp, hpx⟩ := Option.bind_eq_some_iff.mp hx
    obtain ⟨block, hblock, -⟩ := hF.block hp hpx
    simp [FastPayloadPool.call, FastPayloadPool.fillPayload, hp, hpx, hblock, hwf.2 p hp]

theorem allocates_of_wellFormed {c : PayloadCall} (hwf : WellFormed s m a b c) : Allocates m b c := by
  cases c with
  | get target size => exact fun hsize => (hwf.2 hsize).2
  | copy target source => exact fun hsize => (hwf.2.2 hsize).2
  | _ => trivial

end Operations

/-- What the pools need of a call to be interchangeable. -/
def Bounded (s : FastPayloadPool.State) (c : PayloadCall) : Prop :=
  FastPayloadPool.Proper s c ∧ FastPayloadPool.FewReservations s c ∧ FastPayloadPool.FewReferences s c

instance (s : FastPayloadPool.State) (c : PayloadCall) : Decidable (Bounded s c) :=
  inferInstanceAs (Decidable (_ ∧ _ ∧ _))

/-- In every sequence of calls on uninitialised targets, with fewer than 2^32
payloads referring to one block and fewer than 2^64 reservations, the two pools
cannot be told apart and none of them throws. -/
theorem interchangeable {fastdds : SerializedPayload} (hdoc : Documented fastdds)
    (calls : List (PayloadCall × Address × Address)) (s : FastPayloadPool.State) (m : State)
    (hbounded : Along (both fastdds) (fun x c => Bounded x.1 c.1) ({}, {}) calls)
    (hrun : run (both fastdds) ({}, {}) calls = some (s, m)) : Interchangeable fastdds Bounded s m := by
  have hinv : FastPayloadPool.Inv s ∧ Inv m ∧ Agree s m := by
    refine run_invariant_of_along (I := fun x => FastPayloadPool.Inv x.1 ∧ Inv x.2 ∧ Agree x.1 x.2) ?_ ?_
      hbounded hrun
    · rintro ⟨s, m⟩ ⟨c, a, b⟩ x ⟨hproper, hreserve, hrefs⟩ ⟨hF, hM, h⟩ hx
      simp only [both, Option.bind_eq_some_iff, Option.map_eq_some_iff] at hx
      obtain ⟨⟨r, s'⟩, hs, ⟨r', m'⟩, hm, rfl⟩ := hx
      obtain ⟨m₁, hm₁, hM', h'⟩ := call_agrees hdoc hF hM h hproper hreserve hrefs (allocates_of_call hm) hs
      rw [hm, Option.some.injEq, Prod.mk.injEq] at hm₁
      obtain ⟨-, rfl⟩ := hm₁
      exact ⟨FastPayloadPool.inv_call hF hproper hreserve hrefs hs, hM', h'⟩
    · refine ⟨FastPayloadPool.inv_init, fun a => .inl ⟨rfl, rfl, rfl⟩, rfl, fun j k => ?_, rfl, rfl, rfl, rfl⟩
      exact Iff.rfl
  obtain ⟨hF, hM, h⟩ := hinv
  refine ⟨h, fun c a b hwf hC => ?_⟩
  obtain ⟨r, s', hs⟩ := fast_defined hF hwf
  obtain ⟨m', hm, -, h'⟩ := call_agrees hdoc hF hM h hC.1 hC.2.1 hC.2.2 (allocates_of_wellFormed hwf) hs
  exact ⟨r, s', m', hs, hm, h'⟩

/-- The two functions as Fast DDS has them: memory that is large enough is kept,
and memory that is too small is reallocated. -/
def serializedPayload : SerializedPayload where
  reserve memory p size addr :=
    if size ≤ p.maxSize then some (memory, p)
    else match p.data with
      | none => some (Function.update memory addr (some (List.replicate size 0)),
          { p with data := some addr, maxSize := size })
      | some a => (memory a).map fun chunk =>
          (Function.update (Function.update memory a none) addr
            (some (chunk ++ List.replicate (size - chunk.length) 0)), { p with data := some addr, maxSize := size })
  empty memory p :=
    match p.data with
    | none => some (memory, {})
    | some a => (memory a).map fun _ => (Function.update memory a none, {})

theorem documented_serializedPayload : Documented serializedPayload := by
  refine ⟨fun memory size addr hsize _ => ?_, fun memory p a chunk hp hchunk => ?_⟩
  · simp [serializedPayload, hsize]
  · simp [serializedPayload, hp, hchunk]

/-- A copied payload is shared and released once, at different addresses. -/
def copiedAndShared : List (PayloadCall × Address × Address) :=
  [(.declare, 0, 0), (.declare, 0, 0), (.copy 0 { maxSize := 4, bytes := [1, 2] }, 8, 16), (.share 0 1, 0, 0),
    (.release 0, 0, 0)]

theorem interchangeable_copied :
    ∃ s m, run (both serializedPayload) ({}, {}) copiedAndShared = some (s, m) ∧ Interchangeable serializedPayload
      Bounded s m ∧ s.payloads = [{}, ⟨some 8, 2, 4⟩] ∧ m.payloads = [{}, ⟨some 16, 2, 4⟩] := by
  have hrun : ∃ s m, run (both serializedPayload) ({}, {}) copiedAndShared = some (s, m) ∧
      s.payloads = [{}, ⟨some 8, 2, 4⟩] ∧ m.payloads = [{}, ⟨some 16, 2, 4⟩] := ⟨_, _, rfl, by decide, by decide⟩
  obtain ⟨s, m, hrun, hs, hm⟩ := hrun
  exact ⟨s, m, hrun, interchangeable documented_serializedPayload copiedAndShared s m (by decide) hrun, hs, hm⟩

/-! None of the conditions can be left out. -/

/-- The memory of a payload that is given a block again. -/
def reservedTwice : List (PayloadCall × Address × Address) :=
  [(.declare, 0, 0), (.declare, 0, 0), (.get 0 8, 0, 0), (.share 0 1, 0, 0), (.get 0 4, 8, 8)]

section Wrapping

def step (m : State) (c : PayloadCall × Address) : Option State :=
  (call serializedPayload m c.2 c.1).map Prod.snd

/-- The same calls on both pools, with the same addresses. -/
def paired (calls : List (PayloadCall × Address)) : List (PayloadCall × Address × Address) :=
  calls.map fun c => (c.1, c.2, c.2)

theorem both_paired {s s' : FastPayloadPool.State} {m m' : State} {c : PayloadCall × Address}
    (hs : FastPayloadPool.step s c = some s') (hm : step m c = some m') :
    both serializedPayload (s, m) (c.1, c.2, c.2) = some (s', m') := by
  obtain ⟨r, hr, rfl⟩ := Option.map_eq_some_iff.mp hs
  obtain ⟨r', hr', rfl⟩ := Option.map_eq_some_iff.mp hm
  simp [both, hr, hr']

theorem run_paired {calls : List (PayloadCall × Address)} {s s' : FastPayloadPool.State} {m m' : State}
    (hs : run FastPayloadPool.step s calls = some s') (hm : run step m calls = some m') :
    run (both serializedPayload) (s, m) (paired calls) = some (s', m') := by
  induction calls generalizing s m with
  | nil =>
    cases hs
    cases hm
    rfl
  | cons c calls ih =>
    obtain ⟨s₁, hs₁, hs⟩ := run_cons_some.mp hs
    obtain ⟨m₁, hm₁, hm⟩ := run_cons_some.mp hm
    exact run_cons_some.mpr ⟨(s₁, m₁), both_paired hs₁ hm₁, ih hs hm⟩

theorem along_paired {C : FastPayloadPool.State → PayloadCall → Prop} {calls : List (PayloadCall × Address)}
    {s : FastPayloadPool.State} {m : State}
    (h : Along FastPayloadPool.step (fun s c => C s c.1) s calls) :
    Along (both serializedPayload) (fun x c => C x.1 c.1) (s, m) (paired calls) := by
  induction calls generalizing s m with
  | nil => trivial
  | cons c calls ih =>
    rintro ⟨s', m'⟩ hstep
    simp only [both, Option.bind_eq_some_iff, Option.map_eq_some_iff] at hstep
    obtain ⟨r, hs, r', -, hx⟩ := hstep
    cases hx
    obtain ⟨hC, hrest⟩ := h r.2 (by simp [FastPayloadPool.step, hs])
    exact ⟨hC, ih hrest⟩

/-- `n + 1` payloads point to the memory at address zero. -/
def sharedBy (n : Nat) : State :=
  { memory := Function.update (fun _ => none) 0 (some [0])
    reservedPayloads := Function.update (fun _ => none) (some 0) (some (BitVec.ofNat 32 (n + 1)))
    payloads := List.replicate (n + 1) ⟨some 0, 0, 1⟩
    reserveCount := 1 }

theorem step_sharedBy (k : Nat) :
    step { sharedBy k with payloads := FastPayloadPool.declared k } (.share 0 (k + 1), 0) =
      some (sharedBy (k + 1)) := by
  simp only [step, call, FastPayloadPool.declared_source, FastPayloadPool.declared_target, Option.bind_some,
    Option.map_some, sharedBy, Function.update_self, State.setCount, State.setPayload,
    FastPayloadPool.declared_set, Function.update_idem]
  rw [BitVec.ofNat_add (n := 32) (k + 1) 1]
  rfl

theorem run_sharing (n k : Nat) :
    run step (sharedBy k) (FastPayloadPool.sharing k n) = some (sharedBy (k + n)) := by
  induction n generalizing k with
  | zero => rfl
  | succ n ih =>
    have hdeclare : step (sharedBy k) (.declare, 0) =
        some { sharedBy k with payloads := FastPayloadPool.declared k } := rfl
    rw [FastPayloadPool.sharing, run_cons, hdeclare, Option.bind_some, run_cons, step_sharedBy, Option.bind_some,
      ih (k + 1), Nat.add_right_comm, Nat.add_assoc]

/-- A block is reserved and given to `n` more payloads. -/
def sharing (n : Nat) : List (PayloadCall × Address) :=
  (.declare, 0) :: (.get 0 1, 0) :: FastPayloadPool.sharing 0 n

theorem fast_run_shared (n : Nat) :
    run FastPayloadPool.step {} (sharing n) = some (FastPayloadPool.sharedBy n) ∧
      Along FastPayloadPool.step (fun s c => FastPayloadPool.Proper s c.1 ∧ FastPayloadPool.FewReservations s c.1)
        {} (sharing n) := by
  have hdeclare : FastPayloadPool.step {} (.declare, 0) = some { payloads := [{}] } := rfl
  have hget : FastPayloadPool.step { payloads := [{}] } (.get 0 1, 0) = some (FastPayloadPool.sharedBy 0) := rfl
  obtain ⟨hrun, hproper⟩ := FastPayloadPool.run_sharing n 0
  constructor
  · rw [sharing, run_cons, hdeclare, Option.bind_some, run_cons, hget, Option.bind_some, hrun, Nat.zero_add]
  · rw [sharing, along_cons hdeclare, along_cons hget]
    exact ⟨⟨trivial, trivial⟩, ⟨rfl, by simp [FastPayloadPool.FewReservations]⟩, hproper⟩

theorem run_shared (n : Nat) : run step {} (sharing n) = some (sharedBy n) := by
  have hdeclare : step {} (.declare, 0) = some { payloads := [{}] } := rfl
  have hget : step { payloads := [{}] } (.get 0 1, 0) = some (sharedBy 0) := rfl
  rw [sharing, run_cons, hdeclare, Option.bind_some, run_cons, hget, Option.bind_some, run_sharing, Nat.zero_add]

/-- `n` payloads with memory of their own each. -/
def reservedBy (n : Nat) : State :=
  { memory := fun x => if x < n then some [0] else none
    reservedPayloads := fun key => key.bind fun x => if x < n then some 1 else none
    payloads := (List.range n).map fun k => ⟨some k, 0, 1⟩
    reserveCount := BitVec.ofNat 64 n }

theorem step_reservedBy (k : Nat) :
    step { reservedBy k with payloads := FastPayloadPool.declaredNext k } (.get k 1, k) =
      some (reservedBy (k + 1)) := by
  have hfree : (reservedBy k).memory k = none := by simp [reservedBy]
  have hget : getPayload serializedPayload { reservedBy k with payloads := FastPayloadPool.declaredNext k } k {} 1 k =
      some (true, reservedBy (k + 1)) := by
    simp only [getPayload, one_ne_zero, if_false, hfree, Option.isSome_none, Bool.false_eq_true,
      documented_serializedPayload.reserve_blank _ _ _ one_ne_zero hfree, Option.map_some, State.setCount,
      State.setPayload, FastPayloadPool.declaredNext_set]
    refine congrArg some ?_
    simp only [reservedBy, Prod.mk.injEq, State.mk.injEq, and_true, true_and]
    have hlt : ∀ x, x ≠ k → (x < k + 1 ↔ x < k) := fun x hx => by omega
    refine ⟨?_, ?_, by rw [BitVec.ofNat_add]; rfl⟩
    · funext x
      by_cases hx : x = k
      · simp [hx]
      · rw [Function.update_of_ne hx]
        simp only [hlt x hx]
    · funext key
      cases key with
      | none => simp
      | some x =>
        by_cases hx : x = k
        · simp [hx]
        · rw [Function.update_of_ne (by simpa using hx)]
          change _ = if x < k + 1 then _ else _
          simp only [hlt x hx]
          rfl
  simp only [step, call, FastPayloadPool.declaredNext_target, Option.bind_some, hget, Option.map_some]

theorem run_reserving (n k : Nat) :
    run step (reservedBy k) (FastPayloadPool.reserving k n) = some (reservedBy (k + n)) := by
  induction n generalizing k with
  | zero => rfl
  | succ n ih =>
    have hdeclare : step (reservedBy k) (.declare, 0) =
        some { reservedBy k with payloads := FastPayloadPool.declaredNext k } := rfl
    rw [FastPayloadPool.reserving, run_cons, hdeclare, Option.bind_some, run_cons, step_reservedBy,
      Option.bind_some, ih (k + 1), Nat.add_right_comm, Nat.add_assoc]

/-- A count of one is all that the release of a payload looks at. -/
theorem fast_release {s : FastPayloadPool.State} {i : Nat} {p : Payload} {a : Address}
    {block : FastPayloadPool.Block} (addr : Address) (hi : s.payloads[i]? = some p) (hp : p.data = some a)
    (hblock : s.blocks a = some block) (hcounter : block.counter = 1) :
    FastPayloadPool.call s addr (.release i) =
      some (true, ((s.setBlock a none).setPayload i {}).addReleasePayload) := by
  simp [FastPayloadPool.call, FastPayloadPool.releasePayload, hi, hp, hblock, hcounter]

/-- With a count that is one again, the release of one payload frees the memory of
all. -/
theorem freed_early {k : Nat} (hk : BitVec.ofNat 32 (k + 1) = 1) (hpos : 0 < k) :
    ∃ s m, FastPayloadPool.step (FastPayloadPool.sharedBy k) (.release 0, 0) = some s ∧
      step (sharedBy k) (.release 0, 0) = some m ∧ s.blocks 0 = none ∧
      s.payloads[1]? = some ⟨some 0, 0, 1⟩ := by
  have hfirst : (List.replicate (k + 1) (⟨some 0, 0, 1⟩ : Payload))[0]? = some ⟨some 0, 0, 1⟩ := by
    simp [List.replicate_succ]
  have hsecond : ((List.replicate (k + 1) (⟨some 0, 0, 1⟩ : Payload)).set 0 {})[1]? = some ⟨some 0, 0, 1⟩ := by
    rw [List.getElem?_set_ne (by decide), List.getElem?_replicate, if_pos (by omega)]
  have hfast := fast_release (s := FastPayloadPool.sharedBy k) 0 hfirst rfl rfl hk
  have hmap : (releasePayload serializedPayload (sharedBy k) 0 ⟨some 0, 0, 1⟩).isSome = true := by
    simp [releasePayload, sharedBy, hk, serializedPayload]
  obtain ⟨r, hr⟩ := Option.isSome_iff_exists.mp hmap
  refine ⟨_, r.2, by rw [FastPayloadPool.step, hfast, Option.map_some], ?_, rfl, hsecond⟩
  simp only [step, call]
  rw [show (sharedBy k).payloads[0]? = some ⟨some 0, 0, 1⟩ from hfirst, Option.bind_some, hr, Option.map_some]

/-- After 2^64 reservations the release of one block throws. -/
theorem thrown_late {k : Nat} (hk : BitVec.ofNat 64 k = 0) (hpos : 0 < k) {r : Bool} {s : FastPayloadPool.State}
    (hs : FastPayloadPool.call (FastPayloadPool.reservedBy k) 0 (.release 0) = some (r, s)) : s.thrown = true := by
  have hfirst : (FastPayloadPool.reservedBy k).payloads[0]? = some ⟨some 0, 0, 1⟩ := by
    simp [FastPayloadPool.reservedBy, hpos]
  rw [fast_release 0 hfirst rfl (if_pos hpos) rfl] at hs
  cases hs
  change (false || decide (BitVec.ofNat 64 k < 0 + 1)) = true
  rw [hk]
  rfl

end Wrapping

/-- A call of the pool, as opposed to what a client does, with a source that is not
longer than its size. -/
def OfPool : PayloadCall → Prop
  | .fill _ _ => False
  | .copy _ source => source.bytes.length ≤ source.maxSize
  | .declare | .get _ _ | .share _ _ | .release _ => True

instance : (c : PayloadCall) → Decidable (OfPool c)
  | .fill _ _ => .isFalse id
  | .copy _ source => inferInstanceAs (Decidable (source.bytes.length ≤ source.maxSize))
  | .declare | .get _ _ | .share _ _ | .release _ => .isTrue trivial

/-- A payload that gets a second block keeps its memory in the `MapPayloadPool`, and
goes on sharing it, while the `FastPayloadPool` gives it another block. With
2^32 + 1 references the first release frees the block of all. After 2^64
reservations a release throws. -/
theorem pools_differ :
    (¬ ∀ calls s m, Along (both serializedPayload) (fun x c => OfPool c.1 ∧
      FastPayloadPool.FewReservations x.1 c.1 ∧ FastPayloadPool.FewReferences x.1 c.1) ({}, {}) calls →
      run (both serializedPayload) ({}, {}) calls = some (s, m) → Agree s m) ∧
    (¬ ∀ calls s m, Along (both serializedPayload) (fun x c => FastPayloadPool.Proper x.1 c.1 ∧
      FastPayloadPool.FewReservations x.1 c.1) ({}, {}) calls →
      run (both serializedPayload) ({}, {}) calls = some (s, m) → Interchangeable serializedPayload (fun s c =>
        FastPayloadPool.Proper s c ∧ FastPayloadPool.FewReservations s c) s m) ∧
    ¬ ∀ calls s m, Along (both serializedPayload) (fun x c => FastPayloadPool.Proper x.1 c.1 ∧
      FastPayloadPool.FewReferences x.1 c.1) ({}, {}) calls →
      run (both serializedPayload) ({}, {}) calls = some (s, m) → Interchangeable serializedPayload (fun s c =>
        FastPayloadPool.Proper s c ∧ FastPayloadPool.FewReferences s c) s m := by
  refine ⟨fun h => ?_, fun h => ?_, fun h => ?_⟩
  · have hrun : ∃ s m, run (both serializedPayload) ({}, {}) reservedTwice = some (s, m) ∧
        s.payloads = [⟨some 8, 0, 4⟩, ⟨some 0, 0, 8⟩] ∧ m.payloads = [⟨some 0, 0, 4⟩, ⟨some 0, 0, 8⟩] :=
      ⟨_, _, rfl, by decide, by decide⟩
    obtain ⟨s, m, hrun, hs, hm⟩ := hrun
    have hshared := (h reservedTwice s m (by decide) hrun).sharing 0 1
    rw [hs, hm] at hshared
    obtain ⟨a, h₀, h₁⟩ := hshared.mpr ⟨0, rfl, rfl⟩
    cases h₀
    cases h₁
  · obtain ⟨hfast, hproper⟩ := fast_run_shared (2 ^ 32)
    have hmap := run_shared (2 ^ 32)
    obtain ⟨s, m, hs, hm, hfree, hat⟩ := freed_early (k := 2 ^ 32) (by decide) (by decide)
    have hrelease : FastPayloadPool.Proper (FastPayloadPool.sharedBy (2 ^ 32)) (.release 0) ∧
        FastPayloadPool.FewReservations (FastPayloadPool.sharedBy (2 ^ 32)) (.release 0) := ⟨trivial, trivial⟩
    have hpools := h _ _ _ (along_paired (C := fun s c => FastPayloadPool.Proper s c ∧
        FastPayloadPool.FewReservations s c) (along_concat (a := (.release 0, 0)) hproper hfast hrelease))
      (run_paired ((run_concat hfast).trans hs) ((run_concat hmap).trans hm))
    obtain ⟨r, s', m', hcall, -⟩ := hpools.2 (.release 1) 0 0 (by simp [WellFormed, names, hat]) ⟨trivial, trivial⟩
    simp [FastPayloadPool.call, FastPayloadPool.releasePayload, hat, hfree] at hcall
  · obtain ⟨hfast, hproper⟩ := FastPayloadPool.run_reserving (2 ^ 64) 0
    have hmap := run_reserving (2 ^ 64) 0
    have hstart : FastPayloadPool.reservedBy 0 = {} := rfl
    have hstart' : reservedBy 0 = {} := by
      simp only [reservedBy, Nat.not_lt_zero, if_false, Option.bind_fun_none]
      rfl
    rw [hstart] at hfast hproper
    rw [hstart'] at hmap
    have hpools := h _ _ _ (along_paired (C := fun s c => FastPayloadPool.Proper s c ∧
      FastPayloadPool.FewReferences s c) hproper) (run_paired hfast hmap)
    obtain ⟨r, s', m', hs, -, hagree⟩ := hpools.2 (.release 0) 0 0
      (by simp [WellFormed, names, FastPayloadPool.reservedBy]) ⟨trivial, trivial⟩
    have hthrown := thrown_late (by simp) (by simp) hs
    rw [hagree.fast] at hthrown
    cases hthrown

end MapPayloadPool

end DDSRouter
