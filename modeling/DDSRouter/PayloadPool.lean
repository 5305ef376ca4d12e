import DDSRouter.Lib.Runs
import DDSRouter.Lib.Threads
import Mathlib.Algebra.Group.Nat.Defs

/-!
# The payload pool

`FastPayloadPool` keeps the number of references to a block of memory in the
block itself. A reference is held by one thread, which may take further
references from it, and which releases it once. The release is a decrement of
the counter and then a separate load: the thread that loads a zero frees the
block and counts the release.

A block is kept with the references to it, held or on their way through
`release_payload`, and with what has happened to it: how often it was freed, and
whether its counter was touched after that.
-/
namespace DDSRouter.PayloadPool

open Runs Threads

/-- The points of a reference: held, or the next operation of its release. -/
inductive RefPc where
  | held | load | free | count | check
  deriving DecidableEq, Repr

structure Block where
  counter : BitVec 32 := 1
  refs : List RefPc := [.held]
  frees : Nat := 0
  touched : Bool := false
  deriving DecidableEq, Repr

structure State where
  blocks : List Block := []
  reserveCount : BitVec 64 := 0
  releaseCount : BitVec 64 := 0
  thrown : Bool := false
  deriving DecidableEq, Repr

/-- Every access to the counter goes to the memory of the block. -/
def Block.touch (b : Block) : Block := { b with touched := b.touched || 0 < b.frees }

/-- `reserve_`, which nobody sees before it returns. -/
def reserve (s : State) (size : BitVec 32) : State :=
  if size = 0 then s
  else { s with blocks := s.blocks ++ [{}], reserveCount := s.reserveCount + 1 }

/-- `get_payload` from a payload of this pool. -/
def share (b : Block) : Block := { b.touch with counter := b.counter + 1, refs := b.refs ++ [.held] }

/-- One operation of `release_payload`, of `release_` and of
`add_release_payload_` for one reference. -/
def release (s : State) (b : Block) (i : Nat) : RefPc → State × Block
  | .held => (s, { b.touch with counter := b.counter - 1, refs := advance b.refs i (some .load) })
  | .load => (s, { b.touch with refs := advance b.refs i (if b.counter = 0 then some .free else none) })
  | .free => (s, { b with frees := b.frees + 1, refs := advance b.refs i (some .count) })
  | .count =>
    ({ s with releaseCount := s.releaseCount + 1 }, { b with refs := advance b.refs i (some .check) })
  | .check =>
    ({ s with thrown := s.thrown || s.releaseCount > s.reserveCount },
      { b with refs := advance b.refs i none })

/-- A thread reserves a block, takes a further reference from one that it
holds, or goes on with the release of one. -/
inductive Action where
  | reserve (size : BitVec 32)
  | share (k i : Nat)
  | release (k i : Nat)
  deriving DecidableEq, Repr

def step (s : State) : Action → Option State
  | .reserve size => some (reserve s size)
  | .share k i =>
    (s.blocks[k]?).bind fun b =>
      if b.refs[i]? = some .held then some { s with blocks := advance s.blocks k (some (share b)) } else none
  | .release k i =>
    (s.blocks[k]?).bind fun b => (b.refs[i]?).map fun pc =>
      { (release s b i pc).1 with blocks := advance s.blocks k (some (release s b i pc).2) }

/-- A release that loads a zero has the only reference left, and fewer than
2^64 blocks have been reserved before another one is. -/
def FindsZeroAlone (s : State) : Action → Prop
  | .reserve size => size ≠ 0 → s.reserveCount.toNat + 1 < 2 ^ 64
  | .share _ _ => True
  | .release k i => ∀ b ∈ s.blocks[k]?, b.refs[i]? = some .load → b.counter = 0 → b.refs = [.load]

instance (s : State) : (a : Action) → Decidable (FindsZeroAlone s a)
  | .reserve size => inferInstanceAs (Decidable (size ≠ 0 → s.reserveCount.toNat + 1 < 2 ^ 64))
  | .share _ _ => .isTrue trivial
  | .release k i =>
    inferInstanceAs (Decidable (∀ b ∈ s.blocks[k]?, b.refs[i]? = some .load → b.counter = 0 →
      b.refs = [.load]))

/-- The life of a block: as long as there are references to load the counter it
counts those that are held; then a single release goes through to the end. -/
inductive Phase (b : Block) : Prop where
  | live (hpc : ∀ pc ∈ b.refs, pc = .held ∨ pc = .load) (hne : b.refs ≠ [])
      (hcount : b.counter = BitVec.ofNat 32 (b.refs.count .held)) (hf : b.frees = 0)
  | freeing (hr : b.refs = [.free]) (hf : b.frees = 0)
  | freed (hr : b.refs = [.count]) (hf : b.frees = 1)
  | counted (hr : b.refs = [.check] ∨ b.refs = []) (hf : b.frees = 1)

structure Block.Sound (b : Block) : Prop where
  phase : Phase b
  untouched : b.touched = false

/-- The release of the block has been counted. -/
def Block.isCounted (b : Block) : Bool := b.frees = 1 && b.refs ≠ [.count]

section Blocks

variable {b : Block} {i : Nat} {pc : RefPc}

theorem at_singleton {x : RefPc} (hr : b.refs = [x]) (h : b.refs[i]? = some pc) : i = 0 ∧ pc = x := by
  rw [hr] at h
  cases i with
  | zero => exact ⟨rfl, by simpa using h.symm⟩
  | succ i => simp at h

/-- A reference that is held or has the counter still to load is one of a live
block. -/
theorem Phase.live_of_at (h : Phase b) (hi : b.refs[i]? = some pc) (hpc : pc = .held ∨ pc = .load) :
    (∀ pc ∈ b.refs, pc = .held ∨ pc = .load) ∧
      b.counter = BitVec.ofNat 32 (b.refs.count .held) ∧ b.frees = 0 := by
  cases h with
  | live hall hne hcount hf => exact ⟨hall, hcount, hf⟩
  | freeing hr hf | freed hr hf =>
    obtain ⟨-, rfl⟩ := at_singleton hr hi
    simp at hpc
  | counted hr hf =>
    rcases hr with hr | hr
    · obtain ⟨-, rfl⟩ := at_singleton hr hi
      simp at hpc
    · simp [hr] at hi

theorem sound_share (h : b.Sound) (hi : b.refs[i]? = some .held) : (share b).Sound := by
  obtain ⟨hall, hcount, hf⟩ := h.phase.live_of_at hi (.inl rfl)
  constructor
  · apply Phase.live
    · intro pc hpc
      rcases List.mem_append.mp hpc with hpc | hpc
      · exact hall pc hpc
      · exact .inl (List.mem_singleton.mp hpc)
    · simp [share]
    · simp [share, hcount, BitVec.ofNat_add]
    · simp [share, Block.touch, hf]
  · simp [share, Block.touch, h.untouched, hf]

/-- The decrement: one reference less is held. -/
theorem sound_decrement (s : State) (h : b.Sound) (hi : b.refs[i]? = some .held) :
    (release s b i .held).2.Sound := by
  obtain ⟨hall, hcount, hf⟩ := h.phase.live_of_at hi (.inl rfl)
  have hn : b.refs.count .held = (advance b.refs i (some .load)).count .held + 1 :=
    (countP_advance (fun x => x == RefPc.held) hi (some .load)).symm
  constructor
  · apply Phase.live
    · intro pc hpc
      simp only [release] at hpc
      rcases mem_advance hpc with hpc | hpc
      · exact hall pc hpc
      · cases hpc
        exact .inr rfl
    · have hlt : i < b.refs.length := (List.getElem?_eq_some_iff.mp hi).1
      intro hnil
      have hlen := congrArg List.length hnil
      simp only [release, advance, List.length_set, List.length_nil] at hlen
      omega
    · simp only [release, Block.touch, hcount, hn, BitVec.ofNat_add]
      exact BitVec.add_sub_cancel _ _
    · simp [release, Block.touch, hf]
  · simp [release, Block.touch, h.untouched, hf]

/-- The load: a zero is found by the last reference only, and whoever finds
another value leaves a reference that is held. -/
theorem sound_load (s : State) (h : b.Sound) (hi : b.refs[i]? = some .load)
    (halone : b.counter = 0 → b.refs = [.load]) : (release s b i .load).2.Sound := by
  obtain ⟨hall, hcount, hf⟩ := h.phase.live_of_at hi (.inr rfl)
  have hn : (advance b.refs i none).count .held = b.refs.count .held :=
    countP_advance (fun x => x == RefPc.held) hi none
  by_cases h0 : b.counter = 0
  · have hr := halone h0
    obtain ⟨rfl, -⟩ := at_singleton hr hi
    constructor
    · apply Phase.freeing
      · simp [release, h0, hr, advance]
      · simp [release, Block.touch, hf]
    · simp [release, Block.touch, h.untouched, hf]
  · constructor
    · apply Phase.live
      · intro pc hpc
        simp only [release, h0, if_false] at hpc
        rcases mem_advance hpc with hpc | hpc
        · exact hall pc hpc
        · cases hpc
      · intro hnil
        simp only [release, h0, if_false] at hnil
        rw [hnil] at hn
        simp [hcount, ← hn] at h0
      · simp only [release, h0, if_false, hn]
        exact hcount
      · simp [release, Block.touch, hf]
    · simp [release, Block.touch, h.untouched, hf]

/-- The free, which only the release that found the zero makes. -/
theorem sound_free (s : State) (h : b.Sound) (hi : b.refs[i]? = some .free) :
    (release s b i .free).2.Sound := by
  refine ⟨?_, h.untouched⟩
  cases h.phase with
  | live hall hne hcount hf =>
    rcases hall _ (mem_of_at hi) with h' | h' <;> cases h'
  | freeing hr hf =>
    obtain ⟨rfl, -⟩ := at_singleton hr hi
    exact .freed (by simp [release, hr, advance]) (by simp [release, hf])
  | freed hr hf => cases (at_singleton hr hi).2
  | counted hr hf =>
    rcases hr with hr | hr
    · cases (at_singleton hr hi).2
    · simp [hr] at hi

theorem Phase.counting (h : Phase b) (hi : b.refs[i]? = some .count) :
    i = 0 ∧ b.refs = [.count] ∧ b.frees = 1 := by
  cases h with
  | live hall hne hcount hf =>
    rcases hall _ (mem_of_at hi) with h' | h' <;> cases h'
  | freeing hr hf => cases (at_singleton hr hi).2
  | freed hr hf => exact ⟨(at_singleton hr hi).1, hr, hf⟩
  | counted hr hf =>
    rcases hr with hr | hr
    · cases (at_singleton hr hi).2
    · simp [hr] at hi

theorem Phase.checking (h : Phase b) (hi : b.refs[i]? = some .check) :
    i = 0 ∧ b.refs = [.check] ∧ b.frees = 1 := by
  cases h with
  | live hall hne hcount hf =>
    rcases hall _ (mem_of_at hi) with h' | h' <;> cases h'
  | freeing hr hf | freed hr hf => cases (at_singleton hr hi).2
  | counted hr hf =>
    rcases hr with hr | hr
    · exact ⟨(at_singleton hr hi).1, hr, hf⟩
    · simp [hr] at hi

/-- One operation of a release on a sound block. -/
theorem sound_release (s : State) (h : b.Sound) (hi : b.refs[i]? = some pc)
    (halone : pc = .load → b.counter = 0 → b.refs = [.load]) : (release s b i pc).2.Sound := by
  cases pc with
  | held => exact sound_decrement s h hi
  | load => exact sound_load s h hi (halone rfl)
  | free => exact sound_free s h hi
  | count =>
    obtain ⟨rfl, hr, hf⟩ := h.phase.counting hi
    exact ⟨.counted (.inl (by simp [release, hr, advance])) hf, h.untouched⟩
  | check =>
    obtain ⟨rfl, hr, hf⟩ := h.phase.checking hi
    exact ⟨.counted (.inr (by simp [release, hr, advance])) hf, h.untouched⟩

/-- Counting is the only operation that makes a release a counted one. -/
theorem release_isCounted (s : State) (h : b.Sound) (hi : b.refs[i]? = some pc) :
    (release s b i pc).2.isCounted.toNat = b.isCounted.toNat + if pc = .count then 1 else 0 := by
  cases pc with
  | held =>
    obtain ⟨-, -, hf⟩ := h.phase.live_of_at hi (.inl rfl)
    simp [release, Block.isCounted, Block.touch, hf]
  | load =>
    obtain ⟨-, -, hf⟩ := h.phase.live_of_at hi (.inr rfl)
    simp [release, Block.isCounted, Block.touch, hf]
  | free =>
    cases h.phase with
    | live hall hne hcount hf =>
      rcases hall _ (mem_of_at hi) with h' | h' <;> cases h'
    | freeing hr hf =>
      obtain ⟨rfl, -⟩ := at_singleton hr hi
      simp [release, Block.isCounted, hf, hr, advance]
    | freed hr hf => cases (at_singleton hr hi).2
    | counted hr hf =>
      rcases hr with hr | hr
      · cases (at_singleton hr hi).2
      · simp [hr] at hi
  | count =>
    obtain ⟨rfl, hr, hf⟩ := h.phase.counting hi
    simp [release, Block.isCounted, hf, hr, advance]
  | check =>
    obtain ⟨rfl, hr, hf⟩ := h.phase.checking hi
    simp [release, Block.isCounted, hf, hr, advance]

end Blocks

/-- What a step of the pool can be. -/
inductive Move (s : State) : Action → State → Prop where
  | none (size : BitVec 32) (h0 : size = 0) : Move s (.reserve size) s
  | reserve (size : BitVec 32) (h0 : size ≠ 0) :
      Move s (.reserve size) { s with blocks := s.blocks ++ [{}], reserveCount := s.reserveCount + 1 }
  | share (k i : Nat) (b : Block) (hk : s.blocks[k]? = some b) (hi : b.refs[i]? = some .held) :
      Move s (.share k i) { s with blocks := advance s.blocks k (some (share b)) }
  | release (k i : Nat) (b : Block) (pc : RefPc) (hk : s.blocks[k]? = some b) (hi : b.refs[i]? = some pc) :
      Move s (.release k i)
        { (release s b i pc).1 with blocks := advance s.blocks k (some (release s b i pc).2) }

theorem step_move {s s' : State} {a : Action} (h : step s a = some s') : Move s a s' := by
  cases a with
  | reserve size =>
    cases h
    unfold reserve
    split
    · exact .none size (by assumption)
    · exact .reserve size (by assumption)
  | share k i =>
    simp only [step, Option.bind_eq_some_iff] at h
    obtain ⟨b, hk, h⟩ := h
    split at h
    · cases h
      exact .share k i b hk (by assumption)
    · cases h
  | release k i =>
    simp only [step, Option.bind_eq_some_iff, Option.map_eq_some_iff] at h
    obtain ⟨b, hk, pc, hi, rfl⟩ := h
    exact .release k i b pc hk hi

structure Sound (s : State) : Prop where
  blocks : ∀ b ∈ s.blocks, b.Sound
  reserved : s.reserveCount.toNat = s.blocks.length
  released : s.releaseCount.toNat = s.blocks.countP Block.isCounted
  thrown : s.thrown = false

theorem sound_fresh : Block.Sound {} :=
  ⟨.live (by simp) (by simp) (by decide) rfl, rfl⟩

theorem length_advance {s : State} {k : Nat} {b : Block} :
    (advance s.blocks k (some b)).length = s.blocks.length := by
  simp [advance]

theorem blocks_advance {s : State} (h : Sound s) {k : Nat} {b : Block} (hb : b.Sound) :
    ∀ b' ∈ advance s.blocks k (some b), b'.Sound := by
  intro b' hb'
  rcases mem_advance hb' with hb' | hb'
  · exact h.blocks b' hb'
  · cases hb'
    exact hb

/-- A release that is counted is counted once. -/
theorem countP_release {s : State} (h : Sound s) {k i : Nat} {b : Block} {pc : RefPc}
    (hk : s.blocks[k]? = some b) (hi : b.refs[i]? = some pc) :
    (advance s.blocks k (some (release s b i pc).2)).countP Block.isCounted =
      s.blocks.countP Block.isCounted + if pc = .count then 1 else 0 := by
  have hcount := countP_advance Block.isCounted hk (some (release s b i pc).2)
  have hone := release_isCounted s (h.blocks b (mem_of_at hk)) hi
  rw [Option.elim_some] at hcount
  omega

theorem sound_step {s s' : State} {a : Action} (hC : FindsZeroAlone s a) (h : Sound s)
    (hs : step s a = some s') : Sound s' := by
  cases step_move hs with
  | none size h0 => exact h
  | reserve size h0 =>
    have hlt : s.reserveCount.toNat + 1 < 2 ^ 64 := hC h0
    constructor
    · intro b hb
      rcases List.mem_append.mp hb with hb | hb
      · exact h.blocks b hb
      · rw [List.mem_singleton.mp hb]
        exact sound_fresh
    · have hres := h.reserved
      simp only [BitVec.toNat_add, BitVec.ofNat_eq_ofNat, BitVec.toNat_ofNat, List.length_append,
        List.length_singleton]
      omega
    · rw [h.released, List.countP_append]
      simp [Block.isCounted]
    · exact h.thrown
  | share k i b hk hi =>
    have hb := h.blocks b (mem_of_at hk)
    have hcount := countP_advance Block.isCounted hk (some (share b))
    constructor
    · exact blocks_advance h (sound_share hb hi)
    · rw [length_advance]
      exact h.reserved
    · have hf := (hb.phase.live_of_at hi (.inl rfl)).2.2
      have hsame : (share b).isCounted = b.isCounted := by
        simp [share, Block.isCounted, Block.touch, hf]
      rw [Option.elim_some, hsame] at hcount
      exact h.released.trans (Nat.add_right_cancel hcount).symm
    · exact h.thrown
  | release k i b pc hk hi =>
    have hb := h.blocks b (mem_of_at hk)
    have hblocks := blocks_advance h (k := k) (sound_release s hb hi fun hpc h0 => hC b hk (hpc ▸ hi) h0)
    have hcount := countP_release h hk hi
    have hlen : (advance s.blocks k (some (release s b i pc).2)).length = s.blocks.length := length_advance
    cases pc with
    | held | load | free =>
      exact ⟨hblocks, h.reserved.trans hlen.symm, h.released.trans hcount.symm, h.thrown⟩
    | count =>
      refine ⟨hblocks, h.reserved.trans hlen.symm, ?_, h.thrown⟩
      have hle := List.countP_le_length (p := Block.isCounted)
        (l := advance s.blocks k (some (release s b i .count).2))
      have hres := h.reserved
      have hwidth := s.reserveCount.isLt
      rw [hcount, if_pos rfl] at hle
      show (s.releaseCount + 1).toNat = _
      rw [BitVec.toNat_add, h.released, hcount, if_pos rfl, Nat.mod_eq_of_lt]
      · rfl
      · simp only [BitVec.ofNat_eq_ofNat, BitVec.toNat_ofNat]
        omega
    | check =>
      have hno : ¬ s.releaseCount > s.reserveCount := by
        have hle := List.countP_le_length (p := Block.isCounted) (l := s.blocks)
        rw [← h.released, ← h.reserved] at hle
        exact BitVec.not_lt.mpr (BitVec.le_def.mpr hle)
      refine ⟨hblocks, h.reserved.trans hlen.symm, h.released.trans hcount.symm, ?_⟩
      simp [release, h.thrown, hno]

theorem sound_init : Sound {} := ⟨by simp, rfl, rfl, rfl⟩

theorem Block.Sound.frees_le {b : Block} (h : b.Sound) : b.frees ≤ 1 := by
  cases h.phase with
  | live _ _ _ hf | freeing _ hf | freed _ hf | counted _ hf => omega

theorem Block.Sound.frees_of_released {b : Block} (h : b.Sound) (hr : b.refs = []) : b.frees = 1 := by
  cases h.phase with
  | live _ hne _ _ => exact absurd hr hne
  | freeing h' _ | freed h' _ => simp [hr] at h'
  | counted _ hf => exact hf

/-- In every run in which a release finds the counter at zero only with the last
reference, no block is freed twice or touched after it was freed, every block
whose references are all released has been freed, and no release throws. -/
theorem freed_once_of_findsZeroAlone (as : List Action) (s : State)
    (halone : Along step FindsZeroAlone {} as) (hrun : run step {} as = some s) :
    s.thrown = false ∧
      ∀ b ∈ s.blocks, b.frees ≤ 1 ∧ b.touched = false ∧ (b.refs = [] → b.frees = 1) := by
  have h : Sound s :=
    run_invariant_of_along (fun _ _ _ hC hI hs => sound_step hC hI hs) sound_init halone hrun
  refine ⟨h.thrown, fun b hb => ?_⟩
  have hs := h.blocks b hb
  exact ⟨hs.frees_le, hs.untouched, hs.frees_of_released⟩

/-- Two references, the second taken from the first, released one after the
other. -/
def releasedInTurn : List Action :=
  .reserve 8 :: .share 0 0 :: List.replicate 7 (.release 0 0)

theorem freed_once_in_turn :
    ∃ s, run step {} releasedInTurn = some s ∧ s.thrown = false ∧
      ∀ b ∈ s.blocks, b.frees ≤ 1 ∧ b.touched = false ∧ (b.refs = [] → b.frees = 1) := by
  have hrun : ∃ s, run step {} releasedInTurn = some s := ⟨_, rfl⟩
  obtain ⟨s, hrun⟩ := hrun
  exact ⟨s, hrun, freed_once_of_findsZeroAlone releasedInTurn s (by decide) hrun⟩

/-- Both references are decremented before either of them loads the counter. -/
def releasedTogether : List Action :=
  [.reserve 8, .share 0 0, .release 0 0, .release 0 1, .release 0 0, .release 0 1,
    .release 0 0, .release 0 1]

theorem freed_twice :
    ¬ ∀ (as : List Action) (s : State), run step {} as = some s →
      s.thrown = false ∧
        ∀ b ∈ s.blocks, b.frees ≤ 1 ∧ b.touched = false ∧ (b.refs = [] → b.frees = 1) := by
  intro h
  have hrun : run step {} releasedTogether = some
      { blocks := [{ counter := 0, refs := [.count, .count], frees := 2 }], reserveCount := 1 } := by decide
  have hb := (h releasedTogether _ hrun).2 _ (List.mem_singleton.mpr rfl)
  exact absurd hb.1 (by decide)

end DDSRouter.PayloadPool
