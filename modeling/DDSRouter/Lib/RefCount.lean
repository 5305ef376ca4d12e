import Mathlib.Algebra.Order.BigOperators.Group.Finset
import Mathlib.Data.Finset.Card
import Mathlib.Data.Finset.Insert
import Mathlib.Logic.Function.Basic

/-!
# Counted references

A pool of blocks with the number of references to each. A block is reserved with
one reference, references are added and taken away, and the pool counts how many
blocks it has reserved and how many it has given back, which is when the last
reference goes. Taking or adding a reference to a block that has none is misuse
and is remembered.
-/
namespace RefCount

variable {β : Type} [DecidableEq β]

structure Pool (β : Type) where
  refs : β → Nat := fun _ => 0
  reserveCount : Nat := 0
  releaseCount : Nat := 0
  misused : Bool := false

namespace Pool

def isClean (p : Pool β) : Bool := p.reserveCount = p.releaseCount

def reserve (p : Pool β) (b : β) : Pool β :=
  { p with
    refs := Function.update p.refs b 1
    reserveCount := p.reserveCount + 1
    misused := p.misused || decide (0 < p.refs b) }

def share (p : Pool β) (b : β) : Pool β :=
  { p with
    refs := Function.update p.refs b (p.refs b + 1)
    misused := p.misused || decide (p.refs b = 0) }

def release (p : Pool β) (b : β) : Pool β :=
  { p with
    refs := Function.update p.refs b (p.refs b - 1)
    releaseCount := if p.refs b = 1 then p.releaseCount + 1 else p.releaseCount
    misused := p.misused || decide (p.refs b = 0) }

def releaseAll (p : Pool β) (l : List β) : Pool β := l.foldl release p

/-- Nothing has been misused, and the blocks that were reserved and not given back
are those with a reference. -/
structure Sound (p : Pool β) : Prop where
  misused : p.misused = false
  balance : ∃ live : Finset β, (∀ b, b ∈ live ↔ 0 < p.refs b) ∧ p.reserveCount = p.releaseCount + live.card

variable {p : Pool β} {b : β}

omit [DecidableEq β] in
theorem sound_init : Sound ({} : Pool β) := ⟨rfl, ∅, fun b => by simp, rfl⟩

omit [DecidableEq β] in
/-- A pool is clean exactly when no block has a reference. -/
theorem Sound.isClean_iff (h : p.Sound) : p.isClean = true ↔ ∀ b, p.refs b = 0 := by
  obtain ⟨live, hlive, hbal⟩ := h.balance
  have hempty : live.card = 0 ↔ ∀ b, p.refs b = 0 := by
    rw [Finset.card_eq_zero, Finset.eq_empty_iff_forall_notMem]
    simp only [hlive, Nat.not_lt, Nat.le_zero]
  rw [← hempty, isClean, decide_eq_true_eq]
  omega

@[simp] theorem refs_reserve (p : Pool β) (b x : β) :
    (p.reserve b).refs x = if x = b then 1 else p.refs x := by
  by_cases hx : x = b
  · simp [reserve, hx]
  · simp [reserve, hx]

@[simp] theorem refs_share (p : Pool β) (b x : β) :
    (p.share b).refs x = p.refs x + if x = b then 1 else 0 := by
  by_cases hx : x = b
  · simp [share, hx]
  · simp [share, hx]

@[simp] theorem refs_release (p : Pool β) (b x : β) :
    (p.release b).refs x = p.refs x - if x = b then 1 else 0 := by
  by_cases hx : x = b
  · simp [release, hx]
  · simp [release, hx]

theorem sound_reserve (h : p.Sound) (hb : p.refs b = 0) : (p.reserve b).Sound := by
  obtain ⟨live, hlive, hbal⟩ := h.balance
  refine ⟨by simp [reserve, h.misused, hb], insert b live, fun x => ?_, ?_⟩
  · rw [Finset.mem_insert, hlive, refs_reserve]
    by_cases hx : x = b <;> simp [hx]
  · have hnew : b ∉ live := by simp [hlive, hb]
    rw [Finset.card_insert_of_notMem hnew]
    change p.reserveCount + 1 = p.releaseCount + (live.card + 1)
    omega

theorem sound_share (h : p.Sound) (hb : 0 < p.refs b) : (p.share b).Sound := by
  obtain ⟨live, hlive, hbal⟩ := h.balance
  refine ⟨?_, live, fun x => ?_, hbal⟩
  · simp only [share, h.misused, Bool.false_or, decide_eq_false_iff_not]
    omega
  · rw [hlive, refs_share]
    by_cases hx : x = b
    · simp [hx, hb]
    · simp [hx]

theorem sound_release (h : p.Sound) (hb : 0 < p.refs b) : (p.release b).Sound := by
  obtain ⟨live, hlive, hbal⟩ := h.balance
  have hused : (p.release b).misused = false := by
    simp only [release, h.misused, Bool.false_or, decide_eq_false_iff_not]
    omega
  by_cases hone : p.refs b = 1
  · -- the block is given back
    refine ⟨hused, live.erase b, fun x => ?_, ?_⟩
    · rw [Finset.mem_erase, hlive, refs_release]
      by_cases hx : x = b
      · simp [hx, hone]
      · simp [hx]
    · have hmem : b ∈ live := (hlive b).mpr hb
      have hcard := Finset.card_erase_add_one hmem
      simp only [release, hone, if_true]
      omega
  · refine ⟨hused, live, fun x => ?_, ?_⟩
    · rw [hlive, refs_release]
      by_cases hx : x = b
      · simp only [hx, if_true]
        omega
      · simp [hx]
    · simpa [release, hone] using hbal

/-- References to several blocks are given up, each as often as it is in the list. -/
theorem releaseAll_spec {l : List β} (h : p.Sound) (hl : ∀ x, l.count x ≤ p.refs x) :
    (p.releaseAll l).Sound ∧ ∀ x, (p.releaseAll l).refs x = p.refs x - l.count x := by
  induction l generalizing p with
  | nil => exact ⟨h, fun x => rfl⟩
  | cons b l ih =>
    have hb : 0 < p.refs b := by
      have := hl b
      rw [List.count_cons_self] at this
      omega
    obtain ⟨hs, hrefs⟩ := ih (sound_release h hb) fun x => by
      have := hl x
      rw [List.count_cons] at this
      rw [refs_release]
      by_cases hx : x = b
      · simp only [hx, if_true, beq_self_eq_true] at this ⊢
        omega
      · simpa [hx, Ne.symm hx] using this
    refine ⟨hs, fun x => ?_⟩
    change ((p.release b).releaseAll l).refs x = _
    rw [hrefs, refs_release, List.count_cons]
    by_cases hx : x = b
    · simp only [hx, if_true, beq_self_eq_true]
      omega
    · simp [hx, Ne.symm hx]

end Pool

section Holders

variable {ι γ : Type} [DecidableEq ι] {S : Finset ι} {i : ι}

/-- Of several that hold references one is replaced. -/
theorem sum_update (hi : i ∈ S) (w : ι → γ) (v : γ) (f : γ → Nat) :
    (∑ j ∈ S, f (Function.update w i v j)) + f (w i) = (∑ j ∈ S, f (w j)) + f v := by
  have hrest : ∑ j ∈ S.erase i, f (Function.update w i v j) = ∑ j ∈ S.erase i, f (w j) := by
    refine Finset.sum_congr rfl fun j hj => ?_
    rw [Function.update_of_ne (Finset.ne_of_mem_erase hj)]
  rw [← Finset.add_sum_erase _ _ hi, ← Finset.add_sum_erase _ (fun j => f (w j)) hi, hrest, Function.update_self]
  omega

omit [DecidableEq ι] in
theorem le_sum (hi : i ∈ S) (w : ι → γ) (f : γ → Nat) : f (w i) ≤ ∑ j ∈ S, f (w j) :=
  Finset.single_le_sum (f := fun j => f (w j)) (fun _ _ => Nat.zero_le _) hi

end Holders

end RefCount
