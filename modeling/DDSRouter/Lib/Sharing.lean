import Mathlib.Logic.Function.Basic
import Mathlib.Tactic.Common

/-!
# Sharing up to names

A naming gives every place a name or none. Two namings share alike when two
places have one name in the first exactly when they have one name in the second.
The names are not compared: where memory is, and what is said about it, does not
depend on the addresses an allocator has chosen.
-/
namespace Sharing

variable {ι α β π : Type}

/-- Two places with the same name. -/
def Shared (f : ι → Option α) (j k : ι) : Prop := ∃ a, f j = some a ∧ f k = some a

/-- The same places are shared. -/
def Same (f : ι → Option α) (g : ι → Option β) : Prop := ∀ j k, Shared f j k ↔ Shared g j k

variable {f : ι → Option α} {g : ι → Option β}

theorem shared_self (j : ι) : Shared f j j ↔ (f j).isSome = true := by
  simp [Shared, Option.isSome_iff_exists]

theorem Same.isSome (h : Same f g) (j : ι) : (f j).isSome = (g j).isSome := by
  rw [Bool.eq_iff_iff, ← shared_self, ← shared_self]
  exact h j j

theorem Same.eq_none (h : Same f g) {j : ι} (hj : f j = none) : g j = none := by
  have hs := h.isSome j
  rw [hj] at hs
  exact Option.isNone_iff_eq_none.mp (by simpa using hs.symm)

theorem Same.exists_name (h : Same f g) {j : ι} {a : α} (hj : f j = some a) : ∃ b, g j = some b := by
  have hs := h.isSome j
  rw [hj] at hs
  exact Option.isSome_iff_exists.mp (by simpa using hs.symm)

/-- With the names of one place known, the places that share with it are those
that have its name. -/
theorem Same.name_iff (h : Same f g) {j k : ι} {a : α} {b : β} (hf : f j = some a) (hg : g j = some b) :
    f k = some a ↔ g k = some b := by
  have hs := h j k
  simpa [Shared, hf, hg] using hs

section Update

variable [DecidableEq ι]

theorem shared_update (i : ι) (x : Option α) (j k : ι) :
    Shared (Function.update f i x) j k ↔
      if j = i then if k = i then x.isSome = true else ∃ a, x = some a ∧ f k = some a
      else if k = i then ∃ a, x = some a ∧ f j = some a else Shared f j k := by
  by_cases hj : j = i
  · by_cases hk : k = i
    · simp [Shared, hj, hk, Option.isSome_iff_exists]
    · simp [Shared, hj, hk]
  · by_cases hk : k = i
    · simp [Shared, hj, hk, and_comm]
    · simp [Shared, hj, hk]

/-- A place that loses its name. -/
theorem Same.clear (h : Same f g) (i : ι) : Same (Function.update f i none) (Function.update g i none) := by
  intro j k
  rw [shared_update, shared_update]
  split <;> split <;> simp [h j k]

/-- A place that gets a name which no place has. -/
theorem Same.fresh (h : Same f g) (i : ι) {a : α} {b : β} (ha : ∀ j, f j ≠ some a) (hb : ∀ j, g j ≠ some b) :
    Same (Function.update f i (some a)) (Function.update g i (some b)) := by
  intro j k
  rw [shared_update, shared_update]
  split <;> split <;> simp [ha, hb, h j k]

/-- A place that gets the name of another one. -/
theorem Same.alias (h : Same f g) (i j : ι) :
    Same (Function.update f i (f j)) (Function.update g i (g j)) := by
  intro k l
  rw [shared_update, shared_update]
  split
  · split
    · rw [h.isSome j]
    · exact h j l
  · split
    · exact h j k
    · exact h k l

end Update

/-- The names of the elements of a list. -/
def names (name : π → Option α) (l : List π) (i : Nat) : Option α := (l[i]?).bind name

variable {name : π → Option α} {l : List π}

theorem names_at {i : Nat} {p : π} (h : l[i]? = some p) : names name l i = name p := by
  simp [names, h]

theorem names_set {i : Nat} (h : i < l.length) (p : π) :
    names name (l.set i p) = Function.update (names name l) i (name p) := by
  funext j
  by_cases hj : j = i
  · simp [names, hj, h]
  · simp [names, hj, List.getElem?_set_ne (Ne.symm hj)]

theorem names_append {p : π} (h : name p = none) : names name (l ++ [p]) = names name l := by
  funext j
  rcases Nat.lt_trichotomy j l.length with hj | hj | hj
  · simp [names, List.getElem?_append_left hj]
  · simp [names, hj, h]
  · have hold : l[j]? = none := List.getElem?_eq_none (Nat.le_of_lt hj)
    have hnew : (l ++ [p])[j]? = none := List.getElem?_eq_none (by rw [List.length_append, List.length_singleton]; exact hj)
    simp [names, hold, hnew]

theorem names_ne_of_forall {a : α} (h : ∀ p ∈ l, name p ≠ some a) (j : Nat) : names name l j ≠ some a := by
  intro hj
  obtain ⟨p, hp, hname⟩ := Option.bind_eq_some_iff.mp hj
  exact h p (List.mem_of_getElem? hp) hname

/-- Where two lists share alike, a name is borne as often as the one that stands
for it in the other list. -/
theorem Same.countP_eq [DecidableEq α] [DecidableEq β] {ρ : Type} {name' : ρ → Option β} {l' : List ρ}
    (h : Same (names name l) (names name' l')) (hlen : l.length = l'.length) {i : Nat} {a : α} {b : β}
    (ha : names name l i = some a) (hb : names name' l' i = some b) :
    (l.countP fun p => name p = some a) = l'.countP fun p => name' p = some b := by
  have hmap : (l.map fun p => decide (name p = some a)) = l'.map fun p => decide (name' p = some b) := by
    refine List.ext_getElem (by simpa using hlen) fun k hk hk' => ?_
    have hiff := h.name_iff (k := k) ha hb
    simp only [List.length_map] at hk hk'
    simpa [names, List.getElem?_eq_getElem hk, List.getElem?_eq_getElem hk'] using hiff
  have hcount := congrArg (List.countP id) hmap
  rw [List.countP_map, List.countP_map] at hcount
  exact hcount

end Sharing
