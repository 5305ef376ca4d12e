import DDSRouter.Lib.Runs
import DDSRouter.Lib.Threads
import Mathlib.Algebra.Group.Nat.Defs
import Mathlib.Data.Finset.Card
import Mathlib.Data.Finset.Dedup

/-!
# Payloads of one pool

A `SerializedPayload_t` is a pointer with a length and a size. `get_payload` gives
it a new block of memory, or the block of another payload; `release_payload`
takes the block away again. `FastPayloadPool` keeps the number of payloads that
refer to a block in a word in front of the data, and in the pool how many blocks
it has reserved and released.

Calls are made one at a time. A call that would follow a pointer to nowhere has
no step. What `malloc` gives back is open, except that it is not in use.
-/
namespace DDSRouter

abbrev Byte := BitVec 8

abbrev Address := Nat

/-- A payload as the constructor leaves it points nowhere. -/
structure Payload where
  data : Option Address := none
  length : Nat := 0
  maxSize : Nat := 0
  deriving DecidableEq, Repr

/-- A payload of another owner; its length is that of its bytes. -/
structure ForeignPayload where
  maxSize : Nat
  bytes : List Byte
  deriving DecidableEq, Repr

/-- What is done with the payloads of a pool, each named by its place. `fill` is
what a client does with the memory of a payload. -/
inductive PayloadCall where
  | declare
  | get (target size : Nat)
  | copy (target : Nat) (source : ForeignPayload)
  | share (source target : Nat)
  | release (target : Nat)
  | fill (target : Nat) (bytes : List Byte)
  deriving DecidableEq, Repr

/-- Writing from the beginning of a memory block on. -/
def overwrite (old new : List Byte) : List Byte := new ++ old.drop new.length

theorem take_overwrite (old new : List Byte) : (overwrite old new).take new.length = new := by
  simp [overwrite]

namespace FastPayloadPool

open Runs Threads

/-- `bytes` is what has been written to the memory; `first` is what it was
filled with for the first time. -/
structure Block where
  counter : BitVec 32
  size : Nat
  bytes : List Byte := []
  first : Option (List Byte) := none
  deriving DecidableEq, Repr

structure State where
  blocks : Address → Option Block := fun _ => none
  payloads : List Payload := []
  reserveCount : BitVec 64 := 0
  releaseCount : BitVec 64 := 0
  thrown : Bool := false

namespace State

def setPayload (s : State) (i : Nat) (p : Payload) : State := { s with payloads := s.payloads.set i p }

def setBlock (s : State) (a : Address) (b : Option Block) : State :=
  { s with blocks := fun x => if x = a then b else s.blocks x }

/-- `add_release_payload_`. -/
def addReleasePayload (s : State) : State :=
  { s with
    releaseCount := s.releaseCount + 1
    thrown := s.thrown || decide (s.reserveCount < s.releaseCount + 1) }

def isClean (s : State) : Bool := s.reserveCount = s.releaseCount

/-- The payloads that refer to a block. -/
def refs (s : State) (a : Address) : Nat := s.payloads.countP fun p => p.data = some a

/-- The first `length` bytes at the pointer of a payload. -/
def content (s : State) (p : Payload) : List Byte :=
  ((p.data.bind s.blocks).elim [] Block.bytes).take p.length

end State

/-- `get_payload(size)` with `reserve_`. -/
def getPayload (s : State) (target : Nat) (p : Payload) (size : Nat) (addr : Address) : Option (Bool × State) :=
  if size = 0 then some (false, s)
  else if (s.blocks addr).isSome then none
  else
    some (true, { (s.setBlock addr (some { counter := 1, size := size })).setPayload target
      { p with data := some addr, maxSize := size } with reserveCount := s.reserveCount + 1 })

/-- `memcpy` to the memory of a payload, and its new length. -/
def fillPayload (s : State) (target : Nat) (p : Payload) (bytes : List Byte) : Option State :=
  p.data.bind fun a => (s.blocks a).map fun b =>
    (s.setBlock a (some { b with
      bytes := overwrite b.bytes bytes
      first := b.first <|> some bytes })).setPayload target { p with length := bytes.length }

/-- `release_payload`: the word in front of the data is decremented and loaded. -/
def releasePayload (s : State) (target : Nat) (p : Payload) : Option State :=
  p.data.bind fun a => (s.blocks a).map fun b =>
    if b.counter - 1 = 0 then ((s.setBlock a none).setPayload target {}).addReleasePayload
    else (s.setBlock a (some { b with counter := b.counter - 1 })).setPayload target {}

/-- One call: what it returns, and the state after it. -/
def call (s : State) (addr : Address) : PayloadCall → Option (Bool × State)
  | .declare => some (true, { s with payloads := s.payloads ++ [{}] })
  | .get target size => (s.payloads[target]?).bind fun p => getPayload s target p size addr
  | .copy target source =>
    (s.payloads[target]?).bind fun p =>
      (getPayload s target p source.maxSize addr).bind fun r =>
        if r.1 then
          (r.2.payloads[target]?).bind fun p => (fillPayload r.2 target p source.bytes).map (Prod.mk true)
        else some r
  | .share source target =>
    (s.payloads[source]?).bind fun p => p.data.bind fun a => (s.blocks a).bind fun b =>
      (s.payloads[target]?).map fun _ =>
        (true, (s.setBlock a (some { b with counter := b.counter + 1 })).setPayload target p)
  | .release target =>
    (s.payloads[target]?).bind fun p => (releasePayload s target p).map (Prod.mk true)
  | .fill target bytes =>
    (s.payloads[target]?).bind fun p =>
      if bytes.length ≤ p.maxSize then (fillPayload s target p bytes).map (Prod.mk true) else none

/-- A call with the address that `malloc` has for it. -/
def step (s : State) (c : PayloadCall × Address) : Option State := (call s c.2 c.1).map Prod.snd

/-- The targets are uninitialised, a source is not longer than its size, and a
client fills a block once, before it gives it to others. -/
def Proper (s : State) : PayloadCall → Prop
  | .declare => True
  | .get target _ => s.payloads[target]? = some {}
  | .copy target source => s.payloads[target]? = some {} ∧ source.bytes.length ≤ source.maxSize
  | .share _ target => s.payloads[target]? = some {}
  | .release _ => True
  | .fill target _ => ∀ p ∈ s.payloads[target]?, ∀ a ∈ p.data, s.refs a = 1 ∧
      ∀ b ∈ s.blocks a, b.first = none

/-- The pool has made fewer than 2^64 reservations. -/
def FewReservations (s : State) : PayloadCall → Prop
  | .get _ size => size ≠ 0 → s.reserveCount.toNat + 1 < 2 ^ 64
  | .copy _ source => source.maxSize ≠ 0 → s.reserveCount.toNat + 1 < 2 ^ 64
  | .declare | .share _ _ | .release _ | .fill _ _ => True

/-- Fewer than 2^32 payloads refer to one block. -/
def FewReferences (s : State) : PayloadCall → Prop
  | .share source _ => ∀ p ∈ s.payloads[source]?, ∀ a ∈ p.data, s.refs a + 1 < 2 ^ 32
  | .declare | .get _ _ | .copy _ _ | .release _ | .fill _ _ => True

instance (s : State) : (c : PayloadCall) → Decidable (Proper s c)
  | .declare | .release _ => .isTrue trivial
  | .get target _ => inferInstanceAs (Decidable (s.payloads[target]? = some {}))
  | .copy target source =>
    inferInstanceAs (Decidable (s.payloads[target]? = some {} ∧ source.bytes.length ≤ source.maxSize))
  | .share _ target => inferInstanceAs (Decidable (s.payloads[target]? = some {}))
  | .fill target _ =>
    inferInstanceAs (Decidable (∀ p ∈ s.payloads[target]?, ∀ a ∈ p.data, s.refs a = 1 ∧
      ∀ b ∈ s.blocks a, b.first = none))

instance (s : State) : (c : PayloadCall) → Decidable (FewReservations s c)
  | .get _ size => inferInstanceAs (Decidable (size ≠ 0 → s.reserveCount.toNat + 1 < 2 ^ 64))
  | .copy _ source => inferInstanceAs (Decidable (source.maxSize ≠ 0 → s.reserveCount.toNat + 1 < 2 ^ 64))
  | .declare | .share _ _ | .release _ | .fill _ _ => .isTrue trivial

instance (s : State) : (c : PayloadCall) → Decidable (FewReferences s c)
  | .share source _ =>
    inferInstanceAs (Decidable (∀ p ∈ s.payloads[source]?, ∀ a ∈ p.data, s.refs a + 1 < 2 ^ 32))
  | .declare | .get _ _ | .copy _ _ | .release _ | .fill _ _ => .isTrue trivial

/-- The blocks that payloads refer to. -/
def State.held (s : State) : Finset Address := (s.payloads.filterMap Payload.data).toFinset

structure Inv (s : State) : Prop where
  live : ∀ a, (s.blocks a).isSome = true ↔ 0 < s.refs a
  counter : ∀ a b, s.blocks a = some b → b.counter.toNat = s.refs a
  seen : ∀ a b, s.blocks a = some b → ∀ p ∈ s.payloads, p.data = some a →
    p.maxSize = b.size ∧ p.length = b.first.elim 0 List.length
  first : ∀ a b bytes, s.blocks a = some b → b.first = some bytes → b.bytes.take bytes.length = bytes
  blank : ∀ p ∈ s.payloads, p.data = none → p = {}
  balance : s.reserveCount.toNat = s.releaseCount.toNat + s.held.card
  thrown : s.thrown = false

section Refs

variable {s : State} {i : Nat} {p q : Payload} {a : Address}

/-- What the replacement of one payload does to the references. -/
theorem refs_setPayload (hi : s.payloads[i]? = some p) (q : Payload) (a : Address) :
    (s.setPayload i q).refs a + (decide (p.data = some a)).toNat =
      s.refs a + (decide (q.data = some a)).toNat :=
  countP_advance (fun p : Payload => decide (p.data = some a)) hi (some q)

@[simp] theorem refs_setBlock (s : State) (x : Address) (b : Option Block) (a : Address) :
    (s.setBlock x b).refs a = s.refs a := rfl

theorem mem_setPayload (h : p ∈ (s.setPayload i q).payloads) : p ∈ s.payloads ∨ p = q :=
  List.mem_or_eq_of_mem_set h

theorem refs_pos_of_mem (h : p ∈ s.payloads) (hp : p.data = some a) : 0 < s.refs a :=
  List.countP_pos_iff.mpr ⟨p, h, by simpa using hp⟩

theorem mem_held (s : State) (a : Address) : a ∈ s.held ↔ 0 < s.refs a := by
  simp only [State.held, List.mem_toFinset, List.mem_filterMap, State.refs, List.countP_pos_iff,
    decide_eq_true_eq]

/-- Where only one payload refers to a block, it is the only one found there. -/
theorem eq_of_refs_one {l : List Payload} (hone : (l.countP fun p => p.data = some a) ≤ 1) {j : Nat}
    (hj : l[j]? = some q) (hq : q.data = some a) (hp : p ∈ l) (hpa : p.data = some a) : p = q := by
  obtain ⟨k, hk⟩ := List.mem_iff_getElem?.mp hp
  have hkj := eq_of_countP_le_one hone hk hj (by simpa using hpa) (by simpa using hq)
  subst hkj
  rw [hk, Option.some.injEq] at hj
  exact hj

end Refs

section Calls

variable {s s' : State} {i : Nat} {p : Payload} {a addr : Address}

/-- The block of a payload that refers to one. -/
theorem Inv.block (h : Inv s) (hi : s.payloads[i]? = some p) (hp : p.data = some a) :
    ∃ b, s.blocks a = some b ∧ 0 < s.refs a := by
  have hpos := refs_pos_of_mem (List.mem_of_getElem? hi) hp
  obtain ⟨b, hb⟩ := Option.isSome_iff_exists.mp ((h.live a).mpr hpos)
  exact ⟨b, hb, hpos⟩

theorem inv_declare (h : Inv s) : Inv { s with payloads := s.payloads ++ [{}] } := by
  have hrefs : ∀ a, State.refs { s with payloads := s.payloads ++ [{}] } a = s.refs a := by
    intro a
    simp [State.refs, List.countP_append]
  have hheld : State.held { s with payloads := s.payloads ++ [{}] } = s.held := by
    ext a
    rw [mem_held, mem_held, hrefs]
  have hmem : ∀ (p : Payload) (a : Address), p ∈ s.payloads ++ ([{}] : List Payload) → p.data = some a → p ∈ s.payloads := by
    intro p a hp hd
    rcases List.mem_append.mp hp with hp | hp
    · exact hp
    · rw [List.mem_singleton.mp hp] at hd
      cases hd
  refine ⟨fun a => ?_, fun a b hb => ?_, fun a b hb p hp hd => h.seen a b hb p (hmem p a hp hd) hd, h.first,
    fun p hp hd => ?_, ?_, h.thrown⟩
  · rw [hrefs]
    exact h.live a
  · rw [hrefs]
    exact h.counter a b hb
  · rcases List.mem_append.mp hp with hp | hp
    · exact h.blank p hp hd
    · exact List.mem_singleton.mp hp
  · rw [hheld]
    exact h.balance

/-- A new block: nobody referred to its address, now one payload does. -/
theorem inv_reserved (size : Nat) (h : Inv s) (hi : s.payloads[i]? = some {}) (hfree : s.blocks addr = none)
    (hroom : s.reserveCount.toNat + 1 < 2 ^ 64) :
    Inv { (s.setBlock addr (some { counter := 1, size := size })).setPayload i
        { data := some addr, maxSize := size } with reserveCount := s.reserveCount + 1 } ∧
      State.refs { (s.setBlock addr (some { counter := 1, size := size })).setPayload i
        { data := some addr, maxSize := size } with reserveCount := s.reserveCount + 1 } addr = 1 := by
  set t : State := { (s.setBlock addr (some { counter := 1, size := size })).setPayload i
    { data := some addr, maxSize := size } with reserveCount := s.reserveCount + 1 } with ht
  have hzero : s.refs addr = 0 := by
    by_contra hne
    have := (h.live addr).mpr (Nat.pos_of_ne_zero hne)
    simp [hfree] at this
  have hrefs : ∀ x, t.refs x = s.refs x + (decide (x = addr)).toNat := by
    intro x
    have hset := refs_setPayload (s := s) hi { data := some addr, maxSize := size } x
    simp only [reduceCtorEq, decide_false, Bool.toNat_false, Nat.add_zero, Option.some.injEq] at hset
    rw [show decide (x = addr) = decide (addr = x) by simp [eq_comm]]
    exact hset
  have hblocks : ∀ x, t.blocks x = if x = addr then some { counter := 1, size := size } else s.blocks x :=
    fun x => rfl
  have hnone : ∀ p ∈ s.payloads, p.data ≠ some addr := by
    intro p hp hd
    have := refs_pos_of_mem hp hd
    omega
  refine ⟨⟨fun x => ?_, fun x b hb => ?_, fun x b hb p hp hd => ?_, fun x b bytes hb hf => ?_,
    fun p hp hd => ?_, ?_, h.thrown⟩, ?_⟩
  · rw [hblocks, hrefs]
    split
    · rename_i hx
      simp [hx]
    · rename_i hx
      simpa [hx] using h.live x
  · rw [hblocks] at hb
    rw [hrefs]
    split at hb
    · rename_i hx
      cases hb
      simp [hx, hzero]
    · rename_i hx
      simpa [hx] using h.counter x b hb
  · rw [hblocks] at hb
    rcases mem_setPayload hp with hp | rfl
    · have hx : x ≠ addr := fun hx => hnone p hp (hx ▸ hd)
      rw [if_neg hx] at hb
      exact h.seen x b hb p hp hd
    · cases hd
      rw [if_pos rfl] at hb
      cases hb
      exact ⟨rfl, rfl⟩
  · rw [hblocks] at hb
    split at hb
    · cases hb
      cases hf
    · exact h.first x b bytes hb hf
  · rcases mem_setPayload hp with hp | rfl
    · exact h.blank p hp hd
    · cases hd
  · have hheld : t.held = insert addr s.held := by
      ext x
      rw [mem_held, hrefs, Finset.mem_insert, mem_held]
      by_cases hx : x = addr <;> simp [hx]
    have hnew : addr ∉ s.held := by
      rw [mem_held]
      omega
    have hcount : t.reserveCount.toNat = s.reserveCount.toNat + 1 := by
      change (s.reserveCount + 1).toNat = _
      rw [BitVec.toNat_add]
      exact Nat.mod_eq_of_lt hroom
    rw [hcount, hheld, Finset.card_insert_of_notMem hnew, h.balance]
    rfl
  · rw [hrefs, hzero]
    simp

/-- The only payload that refers to a block which has not been filled fills it. -/
theorem inv_filled {bytes : List Byte} {b : Block} (h : Inv s) (hi : s.payloads[i]? = some p)
    (hp : p.data = some a) (hb : s.blocks a = some b) (hone : s.refs a = 1) (hfirst : b.first = none) :
    Inv ((s.setBlock a (some { b with
      bytes := overwrite b.bytes bytes
      first := b.first <|> some bytes })).setPayload i { p with length := bytes.length }) := by
  set t : State := (s.setBlock a (some { b with
    bytes := overwrite b.bytes bytes
    first := b.first <|> some bytes })).setPayload i { p with length := bytes.length } with ht
  have hrefs : ∀ x, t.refs x = s.refs x := by
    intro x
    have hset := refs_setPayload (s := s) hi { p with length := bytes.length } x
    exact Nat.add_right_cancel hset
  have hblocks : ∀ x, t.blocks x = if x = a then some { b with
      bytes := overwrite b.bytes bytes, first := some bytes } else s.blocks x := by
    intro x
    simp only [ht, State.setPayload, State.setBlock, hfirst]
    rfl
  have hat : t.payloads[i]? = some { p with length := bytes.length } := by
    have hlt := (List.getElem?_eq_some_iff.mp hi).1
    simp [ht, State.setPayload, State.setBlock, hlt]
  refine ⟨fun x => ?_, fun x b' hb' => ?_, fun x b' hb' q hq hd => ?_, fun x b' bytes' hb' hf => ?_,
    fun q hq hd => ?_, ?_, h.thrown⟩
  · rw [hrefs, hblocks]
    split
    · rename_i hx
      simp [hx, hone]
    · exact h.live x
  · rw [hblocks] at hb'
    rw [hrefs]
    split at hb'
    · rename_i hx
      cases hb'
      rw [hx]
      exact h.counter a b hb
    · exact h.counter x b' hb'
  · rw [hblocks] at hb'
    split at hb'
    · rename_i hx
      subst hx
      cases hb'
      have hq' := eq_of_refs_one (l := t.payloads) (by rw [← hone]; exact (hrefs x).le) hat hp hq hd
      rw [hq']
      exact ⟨(h.seen x b hb p (List.mem_of_getElem? hi) hp).1, rfl⟩
    · rename_i hx
      rcases mem_setPayload hq with hq | rfl
      · exact h.seen x b' hb' q hq hd
      · rw [hp] at hd
        cases hd
        exact absurd rfl hx
  · rw [hblocks] at hb'
    split at hb'
    · cases hb'
      cases hf
      exact take_overwrite b.bytes bytes
    · exact h.first x b' bytes' hb' hf
  · rcases mem_setPayload hq with hq | rfl
    · exact h.blank q hq hd
    · rw [hp] at hd
      cases hd
  · have hheld : t.held = s.held := by
      ext x
      rw [mem_held, mem_held, hrefs]
    rw [hheld]
    exact h.balance

/-- A payload becomes blank or as another one, and the counter of one block is the
new number of its references. -/
theorem inv_recounted {b : Block} {n : BitVec 32} {q : Payload} (h : Inv s) (hb : s.blocks a = some b)
    (hq : q = {} ∨ q ∈ s.payloads) (hold : 0 < s.refs a) (hnew : 0 < n.toNat)
    (hcount : (s.setPayload i q).refs a = n.toNat) (hother : ∀ x, x ≠ a → (s.setPayload i q).refs x = s.refs x) :
    Inv ((s.setBlock a (some { b with counter := n })).setPayload i q) := by
  set t : State := (s.setBlock a (some { b with counter := n })).setPayload i q with ht
  have hrefs : ∀ x, t.refs x = (s.setPayload i q).refs x := fun x => rfl
  have hblocks : ∀ x, t.blocks x = if x = a then some { b with counter := n } else s.blocks x := fun x => rfl
  have hsame : ∀ x b', t.blocks x = some b' →
      ∃ b₀, s.blocks x = some b₀ ∧ b'.size = b₀.size ∧ b'.bytes = b₀.bytes ∧ b'.first = b₀.first := by
    intro x b' hb'
    rw [hblocks] at hb'
    split at hb'
    · rename_i hx
      cases hb'
      exact ⟨b, by rw [hx, hb], rfl, rfl, rfl⟩
    · exact ⟨b', hb', rfl, rfl, rfl⟩
  have hmem : ∀ r ∈ t.payloads, r = {} ∨ r ∈ s.payloads := by
    intro r hr
    rcases mem_setPayload hr with hr | rfl
    · exact .inr hr
    · exact hq
  refine ⟨fun x => ?_, fun x b' hb' => ?_, fun x b' hb' r hr hd => ?_, fun x b' bytes' hb' hf => ?_,
    fun r hr hd => ?_, ?_, h.thrown⟩
  · rw [hrefs, hblocks]
    split
    · rename_i hx
      simp [hx, hcount, hnew]
    · rename_i hx
      rw [hother x hx]
      exact h.live x
  · rw [hblocks] at hb'
    rw [hrefs]
    split at hb'
    · rename_i hx
      cases hb'
      rw [hx, hcount]
    · rename_i hx
      rw [hother x hx]
      exact h.counter x b' hb'
  · obtain ⟨b₀, hb₀, hsize, -, hfirst⟩ := hsame x b' hb'
    rw [hsize, hfirst]
    rcases hmem r hr with rfl | hr
    · cases hd
    · exact h.seen x b₀ hb₀ r hr hd
  · obtain ⟨b₀, hb₀, -, hbytes, hfirst⟩ := hsame x b' hb'
    rw [hfirst] at hf
    rw [hbytes]
    exact h.first x b₀ bytes' hb₀ hf
  · rcases hmem r hr with rfl | hr
    · rfl
    · exact h.blank r hr hd
  · have hheld : t.held = s.held := by
      ext x
      rw [mem_held, mem_held, hrefs]
      by_cases hx : x = a
      · rw [hx, hcount]
        exact iff_of_true hnew hold
      · rw [hother x hx]
    rw [hheld]
    exact h.balance

/-- Another payload refers to the block as well, and sees what the first does. -/
theorem inv_shared {j : Nat} {b : Block} (h : Inv s) (hj : s.payloads[j]? = some p) (hp : p.data = some a)
    (hb : s.blocks a = some b) (hi : s.payloads[i]? = some {}) (hroom : s.refs a + 1 < 2 ^ 32) :
    Inv ((s.setBlock a (some { b with counter := b.counter + 1 })).setPayload i p) := by
  have hmem : p ∈ s.payloads := List.mem_of_getElem? hj
  have hrefs : ∀ x, (s.setPayload i p).refs x = s.refs x + (decide (a = x)).toNat := by
    intro x
    have hset := refs_setPayload (s := s) hi p x
    simpa only [reduceCtorEq, decide_false, Bool.toNat_false, Nat.add_zero, hp, Option.some.injEq] using hset
  have hcount : (b.counter + 1).toNat = s.refs a + 1 := by
    rw [BitVec.toNat_add, h.counter a b hb]
    exact Nat.mod_eq_of_lt hroom
  refine inv_recounted h hb (.inr hmem) (refs_pos_of_mem hmem hp) (by omega) ?_ fun x hx => ?_
  · rw [hrefs, hcount, decide_eq_true rfl]
    rfl
  · rw [hrefs, decide_eq_false (Ne.symm hx)]
    rfl

/-- One payload less refers to the block. -/
theorem refs_released {t : State} (hi : s.payloads[i]? = some p) (hp : p.data = some a)
    (ht : t.payloads = s.payloads.set i {}) (x : Address) :
    t.refs x + (decide (x = a)).toNat = s.refs x := by
  have hset := refs_setPayload (s := s) hi {} x
  simp only [hp, reduceCtorEq, decide_false, Bool.toNat_false, Nat.add_zero, Option.some.injEq] at hset
  rw [show decide (x = a) = decide (a = x) by simp [eq_comm], State.refs, ht]
  exact hset

theorem mem_of_mem_released {t : State} (ht : t.payloads = s.payloads.set i {}) {q : Payload} {x : Address}
    (hq : q ∈ t.payloads) (hd : q.data = some x) : q ∈ s.payloads := by
  rw [ht] at hq
  rcases List.mem_or_eq_of_mem_set hq with hq | rfl
  · exact hq
  · cases hd

/-- The last reference goes: the block is freed, and the release is counted. -/
theorem inv_freed (h : Inv s) (hi : s.payloads[i]? = some p) (hp : p.data = some a) (hone : s.refs a = 1) :
    Inv ((s.setBlock a none).setPayload i {}).addReleasePayload := by
  set t : State := ((s.setBlock a none).setPayload i {}).addReleasePayload with ht
  have hpay : t.payloads = s.payloads.set i {} := rfl
  have hrefs := refs_released hi hp hpay
  have hblocks : ∀ x, t.blocks x = if x = a then none else s.blocks x := fun x => rfl
  have hold : ∀ x b, t.blocks x = some b → x ≠ a ∧ s.blocks x = some b := by
    intro x b hb
    rw [hblocks] at hb
    split at hb
    · cases hb
    · rename_i hx
      exact ⟨hx, hb⟩
  have hheld : insert a t.held = s.held := by
    ext x
    rw [Finset.mem_insert, mem_held, mem_held, ← hrefs x]
    by_cases hx : x = a <;> simp [hx]
  have hgone : a ∉ t.held := by
    have hra := hrefs a
    rw [mem_held]
    simp only [decide_true, Bool.toNat_true, hone] at hra
    omega
  have hcard : s.held.card = t.held.card + 1 := by
    rw [← hheld, Finset.card_insert_of_notMem hgone]
  have hbal := h.balance
  have hlt : s.reserveCount.toNat < 2 ^ 64 := s.reserveCount.isLt
  have hcount : (s.releaseCount + 1).toNat = s.releaseCount.toNat + 1 := by
    rw [BitVec.toNat_add]
    have hone : (1 : BitVec 64).toNat = 1 := rfl
    exact Nat.mod_eq_of_lt (by omega)
  refine ⟨fun x => ?_, fun x b hb => ?_, fun x b hb q hq hd => ?_, fun x b bytes hb hf => ?_,
    fun q hq hd => ?_, ?_, ?_⟩
  · rw [hblocks]
    have hx' := hrefs x
    split
    · rename_i hx
      simp only [hx, decide_true, Bool.toNat_true, hone] at hx' ⊢
      simp
      omega
    · rename_i hx
      simp only [hx, decide_false, Bool.toNat_false, Nat.add_zero] at hx'
      rw [hx']
      exact h.live x
  · obtain ⟨hx, hb⟩ := hold x b hb
    have hx' := hrefs x
    simp only [hx, decide_false, Bool.toNat_false, Nat.add_zero] at hx'
    rw [hx']
    exact h.counter x b hb
  · exact h.seen x b (hold x b hb).2 q (mem_of_mem_released hpay hq hd) hd
  · exact h.first x b bytes (hold x b hb).2 hf
  · rcases mem_setPayload hq with hq | rfl
    · exact h.blank q hq hd
    · rfl
  · change s.reserveCount.toNat = (s.releaseCount + 1).toNat + _
    rw [hcount]
    omega
  · change (s.thrown || decide (s.reserveCount < s.releaseCount + 1)) = false
    rw [h.thrown, Bool.false_or, decide_eq_false_iff_not, BitVec.lt_def, hcount]
    omega

/-- Others still refer to the block. -/
theorem inv_released {b : Block} (h : Inv s) (hi : s.payloads[i]? = some p) (hp : p.data = some a)
    (hb : s.blocks a = some b) (hmore : 1 < s.refs a) :
    Inv ((s.setBlock a (some { b with counter := b.counter - 1 })).setPayload i {}) := by
  have hrefs := refs_released (t := s.setPayload i {}) hi hp rfl
  have hcount : (b.counter - 1).toNat + 1 = s.refs a := by
    have hc := h.counter a b hb
    have hlt := b.counter.isLt
    have hword : (1 : BitVec 32).toNat = 1 := rfl
    simp only [BitVec.toNat_sub, hc, hword]
    omega
  refine inv_recounted h hb (.inl rfl) (by omega) (by omega) ?_ fun x hx => ?_
  · have hra := hrefs a
    simp only [decide_true, Bool.toNat_true] at hra
    omega
  · simpa [hx] using hrefs x

/-- The decremented word is zero for the last reference only. -/
theorem counter_last {b : Block} (h : Inv s) (hb : s.blocks a = some b) (hpos : 0 < s.refs a) :
    b.counter - 1 = 0 ↔ s.refs a = 1 := by
  have hc := h.counter a b hb
  have hlt := b.counter.isLt
  have hword : (1 : BitVec 32).toNat = 1 := rfl
  have hzero : (0 : BitVec 32).toNat = 0 := rfl
  rw [← BitVec.toNat_inj]
  simp only [BitVec.toNat_sub, hword, hzero, hc]
  omega

theorem inv_getPayload {size : Nat} {r : Bool} (h : Inv s) (hi : s.payloads[i]? = some {})
    (hroom : size ≠ 0 → s.reserveCount.toNat + 1 < 2 ^ 64)
    (hs : getPayload s i {} size addr = some (r, s')) :
    Inv s' ∧ (r = false ∧ size = 0 ∧ s' = s ∨ r = true ∧ size ≠ 0 ∧ s'.refs addr = 1 ∧
      s'.payloads[i]? = some { data := some addr, maxSize := size } ∧
      s'.blocks addr = some { counter := 1, size := size }) := by
  unfold getPayload at hs
  split at hs
  · rename_i hsize
    cases hs
    exact ⟨h, .inl ⟨rfl, hsize, rfl⟩⟩
  · rename_i hsize
    split at hs
    · cases hs
    · rename_i hfree
      cases hs
      have hnew := inv_reserved size h hi (by simpa using hfree) (hroom hsize)
      have hlt := (List.getElem?_eq_some_iff.mp hi).1
      refine ⟨hnew.1, .inr ⟨rfl, hsize, hnew.2, ?_, ?_⟩⟩
      · simp [State.setPayload, State.setBlock, hlt]
      · simp [State.setPayload, State.setBlock]

theorem inv_fillPayload {bytes : List Byte} (h : Inv s) (hi : s.payloads[i]? = some p)
    (honly : ∀ a ∈ p.data, s.refs a = 1 ∧ ∀ b ∈ s.blocks a, b.first = none)
    (hs : fillPayload s i p bytes = some s') : Inv s' := by
  simp only [fillPayload, Option.bind_eq_some_iff, Option.map_eq_some_iff] at hs
  obtain ⟨a, ha, b, hb, rfl⟩ := hs
  obtain ⟨hone, hfirst⟩ := honly a ha
  exact inv_filled h hi ha hb hone (hfirst b hb)

/-- Every call that meets the conditions keeps the invariant. -/
theorem inv_call {c : PayloadCall} {r : Bool} (h : Inv s) (hproper : Proper s c)
    (hreserve : FewReservations s c) (hrefs : FewReferences s c) (hs : call s addr c = some (r, s')) : Inv s' := by
  cases c with
  | declare =>
    cases hs
    exact inv_declare h
  | get target size =>
    simp only [Proper] at hproper
    simp only [call, hproper, Option.bind_some] at hs
    exact (inv_getPayload h hproper hreserve hs).1
  | copy target source =>
    simp only [Proper] at hproper
    simp only [call, hproper.1, Option.bind_some, Option.bind_eq_some_iff] at hs
    obtain ⟨⟨r₁, s₁⟩, hget, hs⟩ := hs
    obtain ⟨hinv, ⟨rfl, -, rfl⟩ | ⟨rfl, -, hone, hat, hblock⟩⟩ := inv_getPayload h hproper.1 hreserve hget
    · cases hs
      exact hinv
    · simp only [if_true, hat, Option.bind_some, Option.map_eq_some_iff] at hs
      obtain ⟨s₂, hfill, hs⟩ := hs
      cases hs
      refine inv_fillPayload hinv hat (fun a ha => ?_) hfill
      cases ha
      refine ⟨hone, fun b hb => ?_⟩
      rw [hblock] at hb
      cases hb
      rfl
  | share source target =>
    simp only [call, Option.bind_eq_some_iff, Option.map_eq_some_iff] at hs
    obtain ⟨p, hp, a, ha, b, hb, q, hq, hs⟩ := hs
    cases hs
    exact inv_shared h hp ha hb hproper (hrefs p hp a ha)
  | release target =>
    simp only [call, releasePayload, Option.bind_eq_some_iff, Option.map_eq_some_iff] at hs
    obtain ⟨p, hp, t, ⟨a, ha, b, hb, rfl⟩, hs⟩ := hs
    cases hs
    have hpos := refs_pos_of_mem (List.mem_of_getElem? hp) ha
    split
    · rename_i hlast
      exact inv_freed h hp ha ((counter_last h hb hpos).mp hlast)
    · rename_i hlast
      rw [counter_last h hb hpos] at hlast
      exact inv_released h hp ha hb (by omega)
  | fill target bytes =>
    simp only [call, Option.bind_eq_some_iff] at hs
    obtain ⟨p, hp, hs⟩ := hs
    split at hs
    · simp only [Option.map_eq_some_iff] at hs
      obtain ⟨s₁, hfill, hs⟩ := hs
      cases hs
      exact inv_fillPayload h hp (hproper p hp) hfill
    · cases hs

end Calls

/-- A new block of size zero is asked for. -/
def RequestsNothing : PayloadCall → Prop
  | .get _ size => size = 0
  | .copy _ source => source.maxSize = 0
  | .declare | .share _ _ | .release _ | .fill _ _ => False

/-- What the counters and the payloads say about each other. A block is there as
long as a payload refers to it, so the release of the last one frees it. -/
structure Sound (s : State) : Prop where
  counter : ∀ a b, s.blocks a = some b → b.counter.toNat = s.refs a
  live : ∀ a, (s.blocks a).isSome = true ↔ 0 < s.refs a
  filled : ∀ a b bytes, s.blocks a = some b → b.first = some bytes → ∀ p ∈ s.payloads, p.data = some a →
    p.length = bytes.length ∧ p.maxSize = b.size ∧ s.content p = bytes
  unfilled : ∀ a b, s.blocks a = some b → b.first = none → ∀ p ∈ s.payloads, p.data = some a →
    p.length = 0 ∧ p.maxSize = b.size
  thrown : s.thrown = false
  clean : s.isClean = true ↔ ∀ p ∈ s.payloads, p.data = none

theorem Inv.sound {s : State} (h : Inv s) : Sound s := by
  refine ⟨h.counter, h.live, fun a b bytes hb hf p hp hd => ?_, fun a b hb hf p hp hd => ?_, h.thrown, ?_⟩
  · obtain ⟨hsize, hlen⟩ := h.seen a b hb p hp hd
    rw [hf] at hlen
    refine ⟨hlen, hsize, ?_⟩
    simp only [State.content, hd, Option.bind_some, hb, Option.elim_some, hlen]
    exact h.first a b bytes hb hf
  · obtain ⟨hsize, hlen⟩ := h.seen a b hb p hp hd
    rw [hf] at hlen
    exact ⟨hlen, hsize⟩
  · have hbal := h.balance
    have hempty : s.held.card = 0 ↔ ∀ p ∈ s.payloads, p.data = none := by
      rw [Finset.card_eq_zero, Finset.eq_empty_iff_forall_notMem]
      constructor
      · intro hno p hp
        cases hd : p.data with
        | none => rfl
        | some a => exact absurd ((mem_held s a).mpr (refs_pos_of_mem hp hd)) (hno a)
      · intro hall a ha
        obtain ⟨p, hp, hd⟩ := List.countP_pos_iff.mp ((mem_held s a).mp ha)
        simp [hall p hp] at hd
    rw [← hempty]
    simp only [State.isClean, decide_eq_true_eq, ← BitVec.toNat_inj]
    omega

theorem inv_init : Inv {} := by
  refine ⟨fun a => ?_, fun a b hb => ?_, fun a b hb => ?_, fun a b bytes hb => ?_, fun p hp => ?_, rfl, rfl⟩
  · simp [State.refs]
  · cases hb
  · cases hb
  · cases hb
  · cases hp

/-- A call fails exactly when a new block of size zero is asked for, and then
nothing has changed. -/
theorem call_fails_iff {s s' : State} {addr : Address} {c : PayloadCall} {r : Bool}
    (hs : call s addr c = some (r, s')) : (r = false ↔ RequestsNothing c) ∧ (r = false → s' = s) := by
  cases c with
  | declare =>
    cases hs
    simp [RequestsNothing]
  | get target size =>
    simp only [call, Option.bind_eq_some_iff, getPayload] at hs
    obtain ⟨p, -, hs⟩ := hs
    split at hs
    · rename_i hsize
      cases hs
      simp [RequestsNothing, hsize]
    · rename_i hsize
      split at hs
      · cases hs
      · cases hs
        simp [RequestsNothing, hsize]
  | copy target source =>
    simp only [call, Option.bind_eq_some_iff, getPayload] at hs
    obtain ⟨p, -, ⟨r₁, s₁⟩, hget, hs⟩ := hs
    split at hget
    · rename_i hsize
      cases hget
      cases hs
      simp [RequestsNothing, hsize]
    · rename_i hsize
      split at hget
      · cases hget
      · cases hget
        simp only [if_true, Option.bind_eq_some_iff, Option.map_eq_some_iff] at hs
        obtain ⟨q, -, t, -, hs⟩ := hs
        cases hs
        simp [RequestsNothing, hsize]
  | share source target =>
    simp only [call, Option.bind_eq_some_iff, Option.map_eq_some_iff] at hs
    obtain ⟨p, -, a, -, b, -, q, -, hs⟩ := hs
    cases hs
    simp [RequestsNothing]
  | release target =>
    simp only [call, Option.bind_eq_some_iff, Option.map_eq_some_iff] at hs
    obtain ⟨p, -, t, -, hs⟩ := hs
    cases hs
    simp [RequestsNothing]
  | fill target bytes =>
    simp only [call, Option.bind_eq_some_iff] at hs
    obtain ⟨p, -, hs⟩ := hs
    split at hs
    · simp only [Option.map_eq_some_iff] at hs
      obtain ⟨t, -, hs⟩ := hs
      cases hs
      simp [RequestsNothing]
    · cases hs

/-- In every sequence of calls on uninitialised targets, with fewer than 2^32
payloads referring to one block and fewer than 2^64 reservations, the counters
are right in every state and no call throws. -/
theorem references_counted (calls : List (PayloadCall × Address)) (s : State)
    (hproper : Along step (fun s c => Proper s c.1) {} calls)
    (hreserve : Along step (fun s c => FewReservations s c.1) {} calls)
    (hrefs : Along step (fun s c => FewReferences s c.1) {} calls) (hrun : run step {} calls = some s) :
    Sound s ∧ ∀ c addr r s', call s addr c = some (r, s') →
      (r = false ↔ RequestsNothing c) ∧ (r = false → s' = s) := by
  have hinv : Inv s := by
    refine run_invariant_of_along ?_ inv_init (along_and hproper (along_and hreserve hrefs)) hrun
    intro s c s' hC hI hs
    simp only [step, Option.map_eq_some_iff] at hs
    obtain ⟨⟨r, t⟩, hcall, rfl⟩ := hs
    exact inv_call hI hC.1 hC.2.1 hC.2.2 hcall
  exact ⟨hinv.sound, fun c addr r s' hs => call_fails_iff hs⟩

/-- A foreign payload is copied, shared, and released once. -/
def copiedAndShared : List (PayloadCall × Address) :=
  [(.declare, 0), (.declare, 0), (.copy 0 { maxSize := 4, bytes := [1, 2] }, 8), (.share 0 1, 0), (.release 0, 0)]

theorem references_counted_copied :
    ∃ s, run step {} copiedAndShared = some s ∧ Sound s ∧ s.payloads = [{}, ⟨some 8, 2, 4⟩] ∧
      (s.blocks 8).isSome = true := by
  have hrun : ∃ s, run step {} copiedAndShared = some s ∧ s.payloads = [{}, ⟨some 8, 2, 4⟩] :=
    ⟨_, rfl, by decide⟩
  obtain ⟨s, hrun, hpay⟩ := hrun
  have hsound := (references_counted copiedAndShared s (by decide) (by decide) (by decide) hrun).1
  refine ⟨s, hrun, hsound, hpay, (hsound.live 8).mpr ?_⟩
  rw [State.refs, hpay]
  decide

/-! The word in front of the data has 32 bits: with 2^32 references it is zero
again. -/

/-- `n + 1` payloads refer to the block at address zero. -/
def sharedBy (n : Nat) : State :=
  { blocks := fun x => if x = 0 then some { counter := BitVec.ofNat 32 (n + 1), size := 1 } else none
    payloads := List.replicate (n + 1) ⟨some 0, 0, 1⟩
    reserveCount := 1 }

/-- The payloads of `sharedBy k` with one more that has been declared. -/
def declared (k : Nat) : List Payload := List.replicate (k + 1) ⟨some 0, 0, 1⟩ ++ [({} : Payload)]

/-- `n` more payloads are declared and given the block, after `k`. -/
def sharing (k : Nat) : Nat → List (PayloadCall × Address)
  | 0 => []
  | n + 1 => (.declare, 0) :: (.share 0 (k + 1), 0) :: sharing (k + 1) n

theorem declared_target (k : Nat) : (declared k)[k + 1]? = some {} := by
  rw [declared, List.getElem?_append_right (by simp)]
  simp

theorem declared_source (k : Nat) : (declared k)[0]? = some ⟨some 0, 0, 1⟩ := by
  simp [declared, List.replicate_succ]

theorem declared_set (k : Nat) :
    (declared k).set (k + 1) ⟨some 0, 0, 1⟩ = List.replicate (k + 2) ⟨some 0, 0, 1⟩ := by
  rw [declared, List.set_append_right _ _ (by simp), List.length_replicate, Nat.sub_self]
  exact (List.replicate_succ' (n := k + 1)).symm

theorem step_declared (k : Nat) :
    step (sharedBy k) (.declare, 0) = some { sharedBy k with payloads := declared k } := rfl

theorem step_sharedBy (k : Nat) :
    step { sharedBy k with payloads := declared k } (.share 0 (k + 1), 0) = some (sharedBy (k + 1)) := by
  simp only [step, call, declared_source, declared_target, Option.bind_some, Option.map_some, sharedBy, if_true,
    State.setBlock, State.setPayload, declared_set]
  refine congrArg some ?_
  simp only [State.mk.injEq, and_true]
  funext x
  by_cases hx : x = 0
  · simp [hx, BitVec.ofNat_add]
  · simp [hx]

/-- Sharing goes on for ever, with uninitialised targets and one reservation. -/
theorem run_sharing (n k : Nat) :
    run step (sharedBy k) (sharing k n) = some (sharedBy (k + n)) ∧
      Along step (fun s c => Proper s c.1 ∧ FewReservations s c.1) (sharedBy k) (sharing k n) := by
  induction n generalizing k with
  | zero => exact ⟨rfl, trivial⟩
  | succ n ih =>
    obtain ⟨hrun, hproper⟩ := ih (k + 1)
    constructor
    · rw [sharing, run_cons, step_declared, Option.bind_some, run_cons, step_sharedBy, Option.bind_some, hrun,
        Nat.add_right_comm, Nat.add_assoc]
    · rw [sharing, along_cons (step_declared k), along_cons (step_sharedBy k)]
      exact ⟨⟨trivial, trivial⟩, ⟨declared_target k, trivial⟩, hproper⟩

/-- `n` payloads with a block of their own each. -/
def reservedBy (n : Nat) : State :=
  { blocks := fun x => if x < n then some { counter := 1, size := 1 } else none
    payloads := (List.range n).map fun k => ⟨some k, 0, 1⟩
    reserveCount := BitVec.ofNat 64 n }

def reserving (k : Nat) : Nat → List (PayloadCall × Address)
  | 0 => []
  | n + 1 => (.declare, 0) :: (.get k 1, k) :: reserving (k + 1) n

/-- The payloads of `reservedBy k` with one more that has been declared. -/
def declaredNext (k : Nat) : List Payload := (List.range k).map (fun x => ⟨some x, 0, 1⟩) ++ [({} : Payload)]

theorem declaredNext_target (k : Nat) : (declaredNext k)[k]? = some {} := by
  rw [declaredNext, List.getElem?_append_right (by simp)]
  simp

theorem declaredNext_set (k : Nat) :
    (declaredNext k).set k ⟨some k, 0, 1⟩ = (List.range (k + 1)).map fun x => ⟨some x, 0, 1⟩ := by
  rw [declaredNext, List.set_append_right _ _ (by simp), List.length_map, List.length_range, Nat.sub_self,
    List.range_succ, List.map_append]
  rfl

theorem step_declaredNext (k : Nat) :
    step (reservedBy k) (.declare, 0) = some { reservedBy k with payloads := declaredNext k } := rfl

theorem step_reservedBy (k : Nat) :
    step { reservedBy k with payloads := declaredNext k } (.get k 1, k) = some (reservedBy (k + 1)) := by
  simp only [step, call, declaredNext_target, Option.bind_some, getPayload, reservedBy, lt_irrefl, if_false,
    Option.isSome_none, Bool.false_eq_true, one_ne_zero, Option.map_some, State.setBlock, State.setPayload,
    declaredNext_set]
  refine congrArg some ?_
  simp only [State.mk.injEq, and_true, true_and]
  refine ⟨?_, by rw [BitVec.ofNat_add]; rfl⟩
  funext x
  rcases lt_trichotomy x k with hx | hx | hx
  · simp [hx, hx.ne, Nat.lt_succ_of_lt hx]
  · simp [hx]
  · simp [hx.ne', Nat.not_lt_of_lt hx, Nat.not_lt.mpr (Nat.succ_le_of_lt hx)]

theorem mem_reservedBy {n : Nat} (h : 0 < n) : ⟨some 0, 0, 1⟩ ∈ (reservedBy n).payloads :=
  List.mem_map.mpr ⟨0, List.mem_range.mpr h, rfl⟩

theorem run_reserving (n k : Nat) :
    run step (reservedBy k) (reserving k n) = some (reservedBy (k + n)) ∧
      Along step (fun s c => Proper s c.1 ∧ FewReferences s c.1) (reservedBy k) (reserving k n) := by
  induction n generalizing k with
  | zero => exact ⟨rfl, trivial⟩
  | succ n ih =>
    obtain ⟨hrun, hproper⟩ := ih (k + 1)
    constructor
    · rw [reserving, run_cons, step_declaredNext, Option.bind_some, run_cons, step_reservedBy, Option.bind_some,
        hrun, Nat.add_right_comm, Nat.add_assoc]
    · rw [reserving, along_cons (step_declaredNext k), along_cons (step_reservedBy k)]
      exact ⟨⟨trivial, trivial⟩, ⟨declaredNext_target k, trivial⟩, hproper⟩

/-- Neither bound can be left out: with 2^32 references to one block the word in
front of it is zero, and after 2^64 reservations the pool says that it is clean. -/
theorem counters_wrap :
    (¬ ∀ (calls : List (PayloadCall × Address)) (s : State),
      Along step (fun s c => Proper s c.1 ∧ FewReservations s c.1) {} calls → run step {} calls = some s →
        Sound s) ∧
      ¬ ∀ (calls : List (PayloadCall × Address)) (s : State),
        Along step (fun s c => Proper s c.1 ∧ FewReferences s c.1) {} calls → run step {} calls = some s →
          Sound s := by
  constructor
  · intro h
    obtain ⟨hrun, hproper⟩ := run_sharing (2 ^ 32 - 1) 0
    have hget : step { payloads := [{}] } (.get 0 1, 0) = some (sharedBy 0) := rfl
    have hdeclare : step {} (.declare, 0) = some { payloads := [{}] } := rfl
    have hsound := h ((.declare, 0) :: (.get 0 1, 0) :: sharing 0 (2 ^ 32 - 1)) (sharedBy (0 + (2 ^ 32 - 1)))
      (by
        rw [along_cons hdeclare, along_cons hget]
        exact ⟨⟨trivial, trivial⟩, ⟨rfl, by simp [FewReservations]⟩, hproper⟩)
      (by rw [run_cons, hdeclare, Option.bind_some, run_cons, hget, Option.bind_some, hrun])
    have hcounter := hsound.counter 0 _ rfl
    have hrefs : (sharedBy (0 + (2 ^ 32 - 1))).refs 0 = 2 ^ 32 := by
      simp only [State.refs, sharedBy, List.countP_replicate]
      rfl
    rw [hrefs] at hcounter
    exact absurd hcounter (by decide)
  · intro h
    obtain ⟨hrun, hproper⟩ := run_reserving (2 ^ 64) 0
    have hstart : reservedBy 0 = {} := rfl
    rw [hstart] at hrun hproper
    have hsound := h _ _ hproper hrun
    have hclean : (reservedBy (0 + 2 ^ 64)).isClean = true := by
      apply decide_eq_true
      apply BitVec.eq_of_toNat_eq
      simp [reservedBy]
    exact absurd (hsound.clean.mp hclean _ (mem_reservedBy (by simp))) (by decide)

end FastPayloadPool

end DDSRouter
