import DDSRouter.FastPayloadPool
import DDSRouter.Lib.RefCount
import Mathlib.Data.Fintype.EquivFin

/-!
# References to payloads

Those who hold payloads of a pool do not see addresses and counters, but how many
references there are to a block. A `FastPayloadPool` is such a pool of counted
references: each of its calls is one operation there.
-/
namespace DDSRouter

/-- The pool as it is seen by those who hold references. -/
abbrev Blocks := RefCount.Pool Nat

namespace FastPayloadPool

open Runs

/-- The references that the pool counts at its addresses are those of the blocks
with these names. An address can be used again, a name is not. -/
structure Counts (name : Address → Nat) (s : State) (p : Blocks) : Prop where
  refs : ∀ a, 0 < s.refs a → p.refs (name a) = s.refs a
  named : ∀ n, 0 < p.refs n → ∃ a, 0 < s.refs a ∧ name a = n
  inj : ∀ a b, 0 < s.refs a → 0 < s.refs b → name a = name b → a = b
  reserveCount : s.reserveCount.toNat = p.reserveCount
  releaseCount : s.releaseCount.toNat = p.releaseCount

section Counts

variable {name : Address → Nat} {s s' : State} {p : Blocks} {a addr : Address} {i : Nat} {q : Payload}

theorem counts_congr (hc : Counts name s p) (hrefs : ∀ x, s'.refs x = s.refs x)
    (hreserve : s'.reserveCount = s.reserveCount) (hrelease : s'.releaseCount = s.releaseCount) :
    Counts name s' p := by
  refine ⟨fun x hx => ?_, fun n hn => ?_, fun x y hx hy => ?_, by rw [hreserve]; exact hc.reserveCount,
    by rw [hrelease]; exact hc.releaseCount⟩
  · rw [hrefs] at hx ⊢
    exact hc.refs x hx
  · simp only [hrefs]
    exact hc.named n hn
  · rw [hrefs] at hx hy
    exact hc.inj x y hx hy

theorem counts_share (hc : Counts name s p) (ha : 0 < s.refs a)
    (hrefs : ∀ x, s'.refs x = s.refs x + (decide (x = a)).toNat)
    (hreserve : s'.reserveCount = s.reserveCount) (hrelease : s'.releaseCount = s.releaseCount) :
    Counts name s' (p.share (name a)) := by
  have hpos : ∀ x, 0 < s'.refs x ↔ 0 < s.refs x := by
    intro x
    rw [hrefs]
    by_cases hx : x = a
    · simp [hx, ha]
    · simp [hx]
  refine ⟨fun x hx => ?_, fun n hn => ?_, fun x y hx hy => ?_, by rw [hreserve]; exact hc.reserveCount,
    by rw [hrelease]; exact hc.releaseCount⟩
  · rw [hpos] at hx
    rw [RefCount.Pool.refs_share, hc.refs x hx, hrefs]
    by_cases hxa : x = a
    · simp [hxa]
    · have hne : name x ≠ name a := fun he => hxa (hc.inj x a hx ha he)
      simp [hxa, hne]
  · simp only [hpos]
    rw [RefCount.Pool.refs_share] at hn
    by_cases hna : n = name a
    · exact ⟨a, ha, hna.symm⟩
    · exact hc.named n (by simpa [hna] using hn)
  · rw [hpos] at hx hy
    exact hc.inj x y hx hy

theorem counts_release (hc : Counts name s p) (ha : 0 < s.refs a)
    (hrefs : ∀ x, s'.refs x + (decide (x = a)).toNat = s.refs x)
    (hreserve : s'.reserveCount = s.reserveCount)
    (hrelease : s'.releaseCount.toNat = s.releaseCount.toNat + if s.refs a = 1 then 1 else 0) :
    Counts name s' (p.release (name a)) := by
  have hother : ∀ x, x ≠ a → s'.refs x = s.refs x := by
    intro x hx
    simpa [hx] using hrefs x
  have hat : s'.refs a + 1 = s.refs a := by
    simpa using hrefs a
  have hold : ∀ x, 0 < s'.refs x → 0 < s.refs x := by
    intro x hx
    have := hrefs x
    omega
  refine ⟨fun x hx => ?_, fun n hn => ?_, fun x y hx hy => hc.inj x y (hold x hx) (hold y hy),
    by rw [hreserve]; exact hc.reserveCount, ?_⟩
  · rw [RefCount.Pool.refs_release, hc.refs x (hold x hx)]
    by_cases hxa : x = a
    · simp only [hxa, if_true]
      omega
    · have hne : name x ≠ name a := fun he => hxa (hc.inj x a (hold x hx) ha he)
      simp [hne, hother x hxa]
  · rw [RefCount.Pool.refs_release] at hn
    obtain ⟨x, hx, rfl⟩ := hc.named n (by omega)
    rw [hc.refs x hx] at hn
    refine ⟨x, ?_, rfl⟩
    by_cases hxa : x = a
    · simp only [hxa, if_true] at hn ⊢
      omega
    · rw [hother x hxa]
      exact hx
  · rw [hrelease, hc.releaseCount]
    simp only [RefCount.Pool.release, hc.refs a ha]
    split <;> rfl

theorem counts_reserve {n : Nat} (hc : Counts name s p) (ha : s.refs a = 0) (hn : p.refs n = 0)
    (hrefs : ∀ x, s'.refs x = s.refs x + (decide (x = a)).toNat)
    (hreserve : s'.reserveCount.toNat = s.reserveCount.toNat + 1) (hrelease : s'.releaseCount = s.releaseCount) :
    Counts (Function.update name a n) s' (p.reserve n) := by
  have hother : ∀ x, x ≠ a → s'.refs x = s.refs x := by
    intro x hx
    simpa [hx] using hrefs x
  have hat : s'.refs a = 1 := by
    simpa [ha] using hrefs a
  have hfresh : ∀ x, 0 < s.refs x → name x ≠ n := by
    rintro x hx rfl
    rw [hc.refs x hx] at hn
    omega
  refine ⟨fun x hx => ?_, fun m hm => ?_, fun x y hx hy hxy => ?_, ?_, by rw [hrelease]; exact hc.releaseCount⟩
  · by_cases hxa : x = a
    · simp [hxa, hat]
    · rw [hother x hxa] at hx ⊢
      simp [hxa, hfresh x hx, hc.refs x hx]
  · rw [RefCount.Pool.refs_reserve] at hm
    by_cases hmn : m = n
    · exact ⟨a, by omega, by simp [hmn]⟩
    · rw [if_neg hmn] at hm
      obtain ⟨x, hx, rfl⟩ := hc.named m hm
      have hxa : x ≠ a := by
        rintro rfl
        omega
      exact ⟨x, by rwa [hother x hxa], by simp [hxa]⟩
  · by_cases hxa : x = a
    · by_cases hya : y = a
      · rw [hxa, hya]
      · rw [hother y hya] at hy
        simp only [hxa, Function.update_self, Function.update_of_ne hya] at hxy
        exact absurd hxy.symm (hfresh y hy)
    · rw [hother x hxa] at hx
      by_cases hya : y = a
      · simp only [hya, Function.update_self, Function.update_of_ne hxa] at hxy
        exact absurd hxy (hfresh x hx)
      · rw [hother y hya] at hy
        simp only [Function.update_of_ne hxa, Function.update_of_ne hya] at hxy
        exact hc.inj x y hx hy hxy
  · rw [hreserve, hc.reserveCount]
    rfl

/-- What a call is to those who hold references. -/
inductive Does (p : Blocks) (n : Nat) : Blocks → Prop where
  | nothing : Does p n p
  | reserve : Does p n (p.reserve n)
  | share (b : Nat) (hb : 0 < p.refs b) : Does p n (p.share b)
  | release (b : Nat) (hb : 0 < p.refs b) : Does p n (p.release b)

theorem getPayload_counts {size n : Nat} {r : Bool} (h : Inv s) (hi : s.payloads[i]? = some {})
    (hroom : size ≠ 0 → s.reserveCount.toNat + 1 < 2 ^ 64) (hs : getPayload s i {} size addr = some (r, s'))
    (hc : Counts name s p) (hn : p.refs n = 0) : ∃ name' p', Counts name' s' p' ∧ Does p n p' := by
  unfold getPayload at hs
  split at hs
  · cases hs
    exact ⟨name, p, hc, .nothing⟩
  · rename_i hsize
    split at hs
    · cases hs
    · rename_i hfree
      cases hs
      have hzero : s.refs addr = 0 := by
        by_contra hne
        exact hfree ((h.live addr).mpr (Nat.pos_of_ne_zero hne))
      refine ⟨_, _, counts_reserve hc hzero hn (fun x => ?_) ?_ rfl, .reserve⟩
      · have hset := refs_setPayload (s := s) hi { data := some addr, maxSize := size } x
        simp only [reduceCtorEq, decide_false, Bool.toNat_false, Nat.add_zero, Option.some.injEq] at hset
        rw [show decide (x = addr) = decide (addr = x) by simp [eq_comm]]
        exact hset
      · change (s.reserveCount + 1).toNat = _
        rw [BitVec.toNat_add]
        exact Nat.mod_eq_of_lt (hroom hsize)

theorem fillPayload_counts {bytes : List Byte} (hi : s.payloads[i]? = some q)
    (hs : fillPayload s i q bytes = some s') (hc : Counts name s p) : Counts name s' p := by
  simp only [fillPayload, Option.bind_eq_some_iff, Option.map_eq_some_iff] at hs
  obtain ⟨a, ha, b, hb, rfl⟩ := hs
  refine counts_congr hc (fun x => ?_) rfl rfl
  have hset := refs_setPayload (s := s) hi { q with length := bytes.length } x
  exact Nat.add_right_cancel hset

/-- Every call on uninitialised targets is one operation on counted references, as
long as the counters of the pool do not overflow. -/
theorem call_counts {c : PayloadCall} {r : Bool} {n : Nat} (h : Inv s) (hproper : Proper s c)
    (hreserve : FewReservations s c) (hs : call s addr c = some (r, s')) (hc : Counts name s p)
    (hn : p.refs n = 0) : ∃ name' p', Counts name' s' p' ∧ Does p n p' := by
  cases c with
  | declare =>
    cases hs
    exact ⟨name, p, counts_congr hc (fun x => by simp [State.refs, List.countP_append]) rfl rfl, .nothing⟩
  | get target size =>
    simp only [Proper] at hproper
    simp only [call, hproper, Option.bind_some] at hs
    exact getPayload_counts h hproper hreserve hs hc hn
  | copy target source =>
    simp only [Proper] at hproper
    simp only [call, hproper.1, Option.bind_some, Option.bind_eq_some_iff] at hs
    obtain ⟨⟨r₁, s₁⟩, hget, hs⟩ := hs
    obtain ⟨name', p', hc', hdoes⟩ := getPayload_counts h hproper.1 hreserve hget hc hn
    refine ⟨name', p', ?_, hdoes⟩
    split at hs
    · simp only [Option.bind_eq_some_iff, Option.map_eq_some_iff] at hs
      obtain ⟨q, hq, s₂, hfill, hs⟩ := hs
      cases hs
      exact fillPayload_counts hq hfill hc'
    · cases hs
      exact hc'
  | share source target =>
    simp only [call, Option.bind_eq_some_iff, Option.map_eq_some_iff] at hs
    obtain ⟨q, hq, a, ha, b, hb, -, -, hs⟩ := hs
    cases hs
    have hpos := refs_pos_of_mem (List.mem_of_getElem? hq) ha
    refine ⟨name, _, counts_share hc hpos (fun x => ?_) rfl rfl, .share _ (by rw [hc.refs a hpos]; exact hpos)⟩
    have hset := refs_setPayload (s := s) hproper q x
    simp only [reduceCtorEq, decide_false, Bool.toNat_false, Nat.add_zero, ha, Option.some.injEq] at hset
    rw [show decide (x = a) = decide (a = x) by simp [eq_comm]]
    exact hset
  | release target =>
    simp only [call, releasePayload, Option.bind_eq_some_iff, Option.map_eq_some_iff] at hs
    obtain ⟨q, hq, t, ⟨a, ha, b, hb, rfl⟩, hs⟩ := hs
    cases hs
    have hpos := refs_pos_of_mem (List.mem_of_getElem? hq) ha
    have hlast := counter_last h hb hpos
    refine ⟨name, _, counts_release hc hpos (fun x => ?_) ?_ ?_, .release _ (by rw [hc.refs a hpos]; exact hpos)⟩
    · refine refs_released hq ha ?_ x
      split <;> rfl
    · split <;> rfl
    · have hbal := h.balance
      have hlt := s.reserveCount.isLt
      by_cases hone : s.refs a = 1
      · rw [if_pos (hlast.mpr hone), if_pos hone]
        have hmem : a ∈ s.held := (mem_held s a).mpr hpos
        have hcard := Finset.card_pos.mpr ⟨a, hmem⟩
        have hword : (1 : BitVec 64).toNat = 1 := rfl
        change (s.releaseCount + 1).toNat = _
        rw [BitVec.toNat_add]
        exact Nat.mod_eq_of_lt (by omega)
      · rw [if_neg fun hz => hone (hlast.mp hz), if_neg hone]
        rfl
  | fill target bytes =>
    simp only [call, Option.bind_eq_some_iff] at hs
    obtain ⟨q, hq, hs⟩ := hs
    split at hs
    · simp only [Option.map_eq_some_iff] at hs
      obtain ⟨s₁, hfill, hs⟩ := hs
      cases hs
      exact ⟨name, p, fillPayload_counts hq hfill hc, .nothing⟩
    · cases hs

theorem Does.sound {p' : Blocks} {n : Nat} (hd : Does p n p') (hn : p.refs n = 0) (h : p.Sound) : p'.Sound := by
  cases hd with
  | nothing => exact h
  | reserve => exact RefCount.Pool.sound_reserve h hn
  | share b hb => exact RefCount.Pool.sound_share h hb
  | release b hb => exact RefCount.Pool.sound_release h hb

end Counts

/-- In every sequence of calls that meets the conditions, what the pool counts are
references to blocks. -/
theorem run_counts (calls : List (PayloadCall × Address)) (s : State)
    (hproper : Along step (fun s c => Proper s c.1) {} calls)
    (hreserve : Along step (fun s c => FewReservations s c.1) {} calls)
    (hrefs : Along step (fun s c => FewReferences s c.1) {} calls) (hrun : run step {} calls = some s) :
    ∃ (name : Address → Nat) (p : Blocks), Counts name s p ∧ p.Sound := by
  have hinv : Inv s ∧ ∃ (name : Address → Nat) (p : Blocks), Counts name s p ∧ p.Sound := by
    refine run_invariant_of_along (I := fun s => Inv s ∧ ∃ (name : Address → Nat) (p : Blocks),
      Counts name s p ∧ p.Sound) ?_ ⟨inv_init, fun _ => 0, {}, ?_, RefCount.Pool.sound_init⟩
      (along_and hproper (along_and hreserve hrefs)) hrun
    · rintro s c s' ⟨hproper, hreserve, hrefs⟩ ⟨hI, name, p, hc, hp⟩ hs
      simp only [step, Option.map_eq_some_iff] at hs
      obtain ⟨⟨r, t⟩, hcall, rfl⟩ := hs
      -- there is always a name that has not been given to a block in use
      obtain ⟨live, hlive, -⟩ := hp.balance
      obtain ⟨n, hn⟩ := Infinite.exists_notMem_finset live
      rw [hlive, Nat.not_lt, Nat.le_zero] at hn
      obtain ⟨name', p', hc', hdoes⟩ := call_counts hI hproper hreserve hcall hc hn
      exact ⟨inv_call hI hproper hreserve hrefs hcall, name', p', hc', hdoes.sound hn hp⟩
    · exact ⟨fun a ha => absurd ha (by simp [State.refs]), fun n hn => absurd hn (by simp),
        fun a b ha => absurd ha (by simp [State.refs]), rfl, rfl⟩
  exact hinv.2

end FastPayloadPool

end DDSRouter
