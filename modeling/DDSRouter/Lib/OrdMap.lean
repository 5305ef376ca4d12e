import Mathlib.Algebra.GroupWithZero.Nat
import Mathlib.Data.List.Perm.Subperm
import Mathlib.Order.Lattice
import Mathlib.Tactic.Common

/-!
# Maps over a strict weak order

The ordered associative container of the standard library: keys are compared
with a strict weak order only, two keys that are not ordered either way are the
same key, and assigning to a present key keeps the key that is stored. Entries
are iterated in key order. A map carries the proof that its entries are sorted,
so a map with two entries for one key cannot be built.
-/

/-- A comparison `lt` that is a strict weak order. -/
class WeakOrder (κ : Type) where
  lt : κ → κ → Bool
  irrefl : ∀ a, lt a a = false
  trans : ∀ {a b c}, lt a b = true → lt b c = true → lt a c = true
  cotrans : ∀ {a c}, lt a c = true → ∀ b, lt a b = true ∨ lt b c = true

namespace WeakOrder

variable {κ : Type}

/-- Comparison through a key in a linear order. -/
abbrev ofKey {L : Type} [LinearOrder L] (key : κ → L) : WeakOrder κ where
  lt a b := decide (key a < key b)
  irrefl a := by simp
  trans {a b c} hab hbc := by
    simp only [decide_eq_true_eq] at hab hbc ⊢
    exact hab.trans hbc
  cotrans {a c} hac b := by
    simp only [decide_eq_true_eq] at hac ⊢
    rcases lt_or_ge (key a) (key b) with h | h
    · exact .inl h
    · exact .inr (h.trans_lt hac)

variable [WeakOrder κ]

/-- Neither key is less than the other. -/
def same (a b : κ) : Bool := !lt a b && !lt b a

theorem same_iff {a b : κ} : same a b = true ↔ lt a b = false ∧ lt b a = false := by
  simp [same]

@[simp] theorem same_refl (a : κ) : same a a = true := by simp [same, irrefl]

theorem same_comm (a b : κ) : same a b = same b a := by simp [same, Bool.and_comm]

theorem lt_congr_left {a b : κ} (h : same a b = true) (c : κ) : lt a c = lt b c := by
  obtain ⟨hab, hba⟩ := same_iff.mp h
  apply Bool.eq_iff_iff.mpr
  constructor
  · intro hac
    rcases cotrans hac b with h | h
    · simp [hab] at h
    · exact h
  · intro hbc
    rcases cotrans hbc a with h | h
    · simp [hba] at h
    · exact h

theorem lt_congr_right {a b : κ} (h : same a b = true) (c : κ) : lt c a = lt c b := by
  obtain ⟨hab, hba⟩ := same_iff.mp h
  apply Bool.eq_iff_iff.mpr
  constructor
  · intro hca
    rcases cotrans hca b with h | h
    · exact h
    · simp [hba] at h
  · intro hcb
    rcases cotrans hcb a with h | h
    · exact h
    · simp [hab] at h

theorem same_congr {a b : κ} (h : same a b = true) (c : κ) : same a c = same b c := by
  simp only [same, lt_congr_left h c, lt_congr_right h c]

theorem same_trans {a b c : κ} (hab : same a b = true) (hbc : same b c = true) :
    same a c = true := by
  rw [same_congr hab c]
  exact hbc

theorem same_symm {a b : κ} (h : same a b = true) : same b a = true := by
  rw [same_comm]
  exact h

theorem not_same_of_lt {a b : κ} (h : lt a b = true) : same a b = false := by simp [same, h]

end WeakOrder

/-- Keys that are told apart by the comparison alone. -/
class TotalKey (κ : Type) [WeakOrder κ] : Prop where
  eq_of_same : ∀ {a b : κ}, WeakOrder.same a b = true → a = b

open WeakOrder

theorem same_iff_eq {κ : Type} [WeakOrder κ] [TotalKey κ] {a b : κ} :
    same a b = true ↔ a = b :=
  ⟨TotalKey.eq_of_same, fun h => h ▸ same_refl a⟩

/-- A map is its entries in key order. -/
structure OrdMap (κ ν : Type) [WeakOrder κ] where
  entries : List (κ × ν)
  sorted : entries.Pairwise fun a b => lt a.1 b.1 = true

namespace OrdMap

variable {κ ν : Type} [WeakOrder κ]

def empty : OrdMap κ ν := ⟨[], List.Pairwise.nil⟩

instance : EmptyCollection (OrdMap κ ν) := ⟨empty⟩

def findIn (k : κ) : List (κ × ν) → Option ν
  | [] => none
  | (k', v) :: rest => if same k k' then some v else findIn k rest

/-- The value stored under `k`. -/
def find (m : OrdMap κ ν) (k : κ) : Option ν := findIn k m.entries

def contains (m : OrdMap κ ν) (k : κ) : Bool := (m.find k).isSome

def keys (m : OrdMap κ ν) : List κ := m.entries.map Prod.fst

def size (m : OrdMap κ ν) : Nat := m.entries.length

def setIn (k : κ) (v : ν) : List (κ × ν) → List (κ × ν)
  | [] => [(k, v)]
  | (k', v') :: rest =>
    if lt k k' then (k, v) :: (k', v') :: rest
    else if lt k' k then (k', v') :: setIn k v rest
    else (k', v) :: rest

theorem setIn_lower {k a : κ} {v : ν} {l : List (κ × ν)} (hak : lt a k = true)
    (h : ∀ e ∈ l, lt a e.1 = true) : ∀ e ∈ setIn k v l, lt a e.1 = true := by
  induction l with
  | nil => simpa [setIn] using hak
  | cons e l ih =>
    obtain ⟨k', v'⟩ := e
    have hk' : lt a k' = true := h (k', v') List.mem_cons_self
    have hl : ∀ e ∈ l, lt a e.1 = true := fun e he => h e (List.mem_cons_of_mem _ he)
    simp only [setIn]
    split
    · simp only [List.mem_cons, forall_eq_or_imp]
      exact ⟨hak, hk', hl⟩
    · split
      · simp only [List.mem_cons, forall_eq_or_imp]
        exact ⟨hk', ih hl⟩
      · simp only [List.mem_cons, forall_eq_or_imp]
        exact ⟨hk', hl⟩

theorem setIn_sorted (k : κ) (v : ν) {l : List (κ × ν)}
    (h : l.Pairwise fun a b => lt a.1 b.1 = true) :
    (setIn k v l).Pairwise fun a b => lt a.1 b.1 = true := by
  induction l with
  | nil => simp [setIn]
  | cons e l ih =>
    obtain ⟨k', v'⟩ := e
    rw [List.pairwise_cons] at h
    simp only [setIn]
    split
    · rename_i hlt
      refine List.pairwise_cons.mpr ⟨?_, List.pairwise_cons.mpr h⟩
      simp only [List.mem_cons, forall_eq_or_imp]
      exact ⟨hlt, fun e he => trans hlt (h.1 e he)⟩
    · split
      · rename_i hlt
        exact List.pairwise_cons.mpr ⟨setIn_lower hlt h.1, ih h.2⟩
      · exact List.pairwise_cons.mpr h

/-- Assignment through the subscript operator. -/
def set (m : OrdMap κ ν) (k : κ) (v : ν) : OrdMap κ ν :=
  ⟨setIn k v m.entries, setIn_sorted k v m.sorted⟩

/-- Removal of a key, a no-op when it is absent. -/
def erase (m : OrdMap κ ν) (k : κ) : OrdMap κ ν :=
  ⟨m.entries.filter fun e => !same k e.1, m.sorted.filter _⟩

/-- Removal of the entry that iteration meets first. -/
def eraseFirst (m : OrdMap κ ν) : OrdMap κ ν := ⟨m.entries.tail, m.sorted.tail⟩

/-- The same change to every value. -/
def mapValues (m : OrdMap κ ν) (f : ν → ν) : OrdMap κ ν :=
  ⟨m.entries.map fun e => (e.1, f e.2), List.pairwise_map.mpr m.sorted⟩

@[simp] theorem find_empty (k : κ) : (empty : OrdMap κ ν).find k = none := rfl

theorem findIn_map (f : ν → ν) (k : κ) (l : List (κ × ν)) :
    findIn k (l.map fun e => (e.1, f e.2)) = (findIn k l).map f := by
  induction l with
  | nil => rfl
  | cons e l ih =>
    simp only [List.map_cons, findIn]
    split
    · rfl
    · exact ih

@[simp] theorem find_mapValues (m : OrdMap κ ν) (f : ν → ν) (k : κ) :
    (m.mapValues f).find k = (m.find k).map f :=
  findIn_map f k m.entries

theorem not_same_of_same_lt {k k₁ k' : κ} (h : same k₁ k' = true) (hlt : lt k' k = true) :
    same k₁ k = false := by
  apply not_same_of_lt
  rw [lt_congr_left h]
  exact hlt

theorem findIn_setIn (k k₁ : κ) (v : ν) (l : List (κ × ν)) :
    findIn k₁ (setIn k v l) = if same k₁ k then some v else findIn k₁ l := by
  induction l with
  | nil => simp [setIn, findIn]
  | cons e l ih =>
    obtain ⟨k', v'⟩ := e
    simp only [setIn]
    split
    · simp [findIn]
    · split
      · rename_i hlt
        simp only [findIn, ih]
        by_cases h' : same k₁ k' = true
        · simp [h', not_same_of_same_lt h' hlt]
        · simp [h']
      · rename_i h₁ h₂
        have hkk : same k k' = true := same_iff.mpr ⟨by simpa using h₁, by simpa using h₂⟩
        simp only [findIn]
        rw [same_comm k₁ k, same_congr hkk k₁, same_comm k' k₁]
        split <;> rfl

@[simp] theorem find_set (m : OrdMap κ ν) (k k₁ : κ) (v : ν) :
    (m.set k v).find k₁ = if same k₁ k then some v else m.find k₁ :=
  findIn_setIn k k₁ v m.entries

theorem find_set_self (m : OrdMap κ ν) (k : κ) (v : ν) : (m.set k v).find k = some v := by simp

theorem setIn_setIn (k : κ) (v w : ν) (l : List (κ × ν)) : setIn k w (setIn k v l) = setIn k w l := by
  induction l with
  | nil => simp [setIn, WeakOrder.irrefl]
  | cons e l ih =>
    simp only [setIn]
    by_cases hlt : lt k e.1 = true
    · simp [hlt, setIn, WeakOrder.irrefl]
    · by_cases hgt : lt e.1 k = true
      · simp [hlt, hgt, setIn, ih]
      · simp [hlt, hgt, setIn]

/-- Of two values set under one key, the second stays. -/
theorem set_set (m : OrdMap κ ν) (k : κ) (v w : ν) : (m.set k v).set k w = m.set k w := by
  simp only [set, setIn_setIn]

theorem findIn_filter (k k₁ : κ) (l : List (κ × ν)) :
    findIn k₁ (l.filter fun e => !same k e.1) = if same k₁ k then none else findIn k₁ l := by
  induction l with
  | nil => simp [findIn]
  | cons e l ih =>
    obtain ⟨k', v'⟩ := e
    by_cases hk : same k k' = true
    · simp only [List.filter_cons, hk, Bool.not_true, Bool.false_eq_true, if_false, ih, findIn]
      rw [same_comm k₁ k, same_congr hk k₁, same_comm k' k₁]
      split <;> rfl
    · simp only [List.filter_cons, hk, Bool.not_false, if_true, findIn, ih]
      by_cases h₁ : same k₁ k' = true
      · have hne : same k₁ k = false := by
          by_contra h
          rw [Bool.not_eq_false] at h
          exact hk (same_trans (same_symm h) h₁)
        simp [h₁, hne]
      · simp [h₁]

@[simp] theorem find_erase (m : OrdMap κ ν) (k k₁ : κ) :
    (m.erase k).find k₁ = if same k₁ k then none else m.find k₁ :=
  findIn_filter k k₁ m.entries

theorem findIn_congr {k k₁ : κ} (h : same k k₁ = true) (l : List (κ × ν)) :
    findIn k l = findIn k₁ l := by
  induction l with
  | nil => rfl
  | cons e l ih => simp only [findIn, same_congr h, ih]

theorem find_congr {k k₁ : κ} (h : same k k₁ = true) (m : OrdMap κ ν) : m.find k = m.find k₁ :=
  findIn_congr h m.entries

theorem findIn_mem {k : κ} {v : ν} {l : List (κ × ν)} (h : findIn k l = some v) :
    ∃ k', same k k' = true ∧ (k', v) ∈ l := by
  induction l with
  | nil => simp [findIn] at h
  | cons e l ih =>
    obtain ⟨k', v'⟩ := e
    simp only [findIn] at h
    split at h
    · cases h
      exact ⟨k', by assumption, List.mem_cons_self⟩
    · obtain ⟨k₂, hs, hm⟩ := ih h
      exact ⟨k₂, hs, List.mem_cons_of_mem _ hm⟩

/-- A stored value is stored under some equivalent key. -/
theorem mem_of_find {m : OrdMap κ ν} {k : κ} {v : ν} (h : m.find k = some v) :
    ∃ k', same k k' = true ∧ (k', v) ∈ m.entries :=
  findIn_mem h

theorem findIn_of_mem {k : κ} {v : ν} {l : List (κ × ν)}
    (hs : l.Pairwise fun a b => lt a.1 b.1 = true) (h : (k, v) ∈ l) : findIn k l = some v := by
  induction l with
  | nil => simp at h
  | cons e l ih =>
    obtain ⟨k', v'⟩ := e
    rw [List.pairwise_cons] at hs
    rcases List.mem_cons.mp h with he | hm
    · cases he
      simp [findIn]
    · have hlt : lt k' k = true := hs.1 (k, v) hm
      simp only [findIn, same_comm k k', not_same_of_lt hlt, Bool.false_eq_true, if_false]
      exact ih hs.2 hm

/-- Sortedness makes each entry the one that lookup finds. -/
theorem find_of_mem {m : OrdMap κ ν} {k : κ} {v : ν} (h : (k, v) ∈ m.entries) :
    m.find k = some v :=
  findIn_of_mem m.sorted h

theorem find_of_mem_keys {m : OrdMap κ ν} {k : κ} (h : k ∈ m.keys) : ∃ v, m.find k = some v := by
  obtain ⟨⟨k', v⟩, hm, rfl⟩ := List.mem_map.mp h
  exact ⟨v, find_of_mem hm⟩

theorem contains_of_mem_keys {m : OrdMap κ ν} {k : κ} (h : k ∈ m.keys) : m.contains k = true := by
  obtain ⟨v, hv⟩ := find_of_mem_keys h
  simp [contains, hv]

@[simp] theorem contains_set (m : OrdMap κ ν) (k k₁ : κ) (v : ν) :
    (m.set k v).contains k₁ = (same k₁ k || m.contains k₁) := by
  simp only [contains, find_set]
  split <;> simp_all

/-- A map filled from a list. -/
theorem contains_foldl_set (v : ν) (l : List κ) (m : OrdMap κ ν) (k : κ) :
    (l.foldl (fun m k => m.set k v) m).contains k = (l.any (fun k' => same k k') || m.contains k) := by
  induction l generalizing m with
  | nil => rfl
  | cons k' l ih =>
    rw [List.foldl_cons, ih, contains_set, List.any_cons]
    cases same k k' <;> simp

def totalIn (f : ν → Nat) (l : List (κ × ν)) : Nat := (l.map fun e => f e.2).sum

/-- The sum of a quantity over all values. -/
def total (m : OrdMap κ ν) (f : ν → Nat) : Nat := totalIn f m.entries

theorem totalIn_setIn (f : ν → Nat) (k : κ) (v : ν) {l : List (κ × ν)}
    (hs : l.Pairwise fun a b => lt a.1 b.1 = true) :
    totalIn f (setIn k v l) + (findIn k l).elim 0 f = totalIn f l + f v := by
  induction l with
  | nil => simp [totalIn, setIn, findIn]
  | cons e l ih =>
    obtain ⟨k', v'⟩ := e
    rw [List.pairwise_cons] at hs
    have ih := ih hs.2
    simp only [totalIn, setIn, findIn] at ih ⊢
    split
    · rename_i hlt
      -- the key is below all others, so it is found nowhere
      have hnone : findIn k l = none := by
        cases hf : findIn k l with
        | none => rfl
        | some w =>
          obtain ⟨k₂, hsame, hmem⟩ := findIn_mem hf
          have hbelow : lt k k₂ = true := trans hlt (hs.1 (k₂, w) hmem)
          rw [not_same_of_lt hbelow] at hsame
          cases hsame
      simp only [not_same_of_lt hlt, hnone, List.map_cons, List.sum_cons, Bool.false_eq_true, if_false,
        Option.elim_none]
      omega
    · split
      · rename_i hlt
        rw [same_comm k k', not_same_of_lt hlt]
        simp only [List.map_cons, List.sum_cons, Bool.false_eq_true, if_false]
        omega
      · rename_i h₁ h₂
        have hsame : same k k' = true := same_iff.mpr ⟨by simpa using h₁, by simpa using h₂⟩
        simp only [hsame, if_true, List.map_cons, List.sum_cons, Option.elim_some]
        omega

/-- An assignment replaces the share of the old value by that of the new one. -/
theorem total_set (m : OrdMap κ ν) (f : ν → Nat) (k : κ) (v : ν) :
    (m.set k v).total f + (m.find k).elim 0 f = m.total f + f v :=
  totalIn_setIn f k v m.sorted

theorem total_mapValues (m : OrdMap κ ν) {f : ν → Nat} {g : ν → ν} (h : ∀ v, f (g v) = f v) :
    (m.mapValues g).total f = m.total f := by
  simp only [total, totalIn, mapValues, List.map_map]
  exact congrArg List.sum (List.map_congr_left fun e _ => h e.2)

theorem keysIn_setIn {k : κ} {v : ν} {l : List (κ × ν)} (h : (findIn k l).isSome = true)
    (hs : l.Pairwise fun a b => lt a.1 b.1 = true) :
    (setIn k v l).map Prod.fst = l.map Prod.fst := by
  induction l with
  | nil => simp [findIn] at h
  | cons e l ih =>
    obtain ⟨k', v'⟩ := e
    rw [List.pairwise_cons] at hs
    simp only [setIn]
    split
    · -- a key below the head is below every key, so it is not in the list
      rename_i hlt
      obtain ⟨v₂, hv⟩ := Option.isSome_iff_exists.mp h
      obtain ⟨k₂, hk, hm⟩ := findIn_mem hv
      have hlt₂ : lt k k₂ = true := by
        rcases List.mem_cons.mp hm with he | hm
        · cases he
          exact hlt
        · exact trans hlt (hs.1 _ hm)
      simp [not_same_of_lt hlt₂] at hk
    · split
      · rename_i hlt
        have hne : same k k' = false := by
          rw [same_comm]
          exact not_same_of_lt hlt
        simp only [findIn, hne, Bool.false_eq_true, if_false] at h
        simp only [List.map_cons, ih h hs.2]
      · rfl

/-- Assigning to a present key changes no key. -/
theorem keys_set_of_contains {m : OrdMap κ ν} {k : κ} (h : m.contains k = true) (v : ν) :
    (m.set k v).keys = m.keys :=
  keysIn_setIn h m.sorted

theorem mem_keysIn_setIn {k k₁ : κ} {v : ν} {l : List (κ × ν)}
    (h : k₁ ∈ (setIn k v l).map Prod.fst) : k₁ = k ∨ k₁ ∈ l.map Prod.fst := by
  induction l with
  | nil => simpa [setIn] using h
  | cons e l ih =>
    obtain ⟨k', v'⟩ := e
    simp only [setIn] at h
    split at h
    · simpa using h
    · split at h
      · simp only [List.map_cons, List.mem_cons] at h ⊢
        rcases h with h | h
        · exact .inr (.inl h)
        · exact (ih h).imp_right .inr
      · exact .inr (by simpa using h)

theorem mem_keys_set {m : OrdMap κ ν} {k k₁ : κ} {v : ν} (h : k₁ ∈ (m.set k v).keys) :
    k₁ = k ∨ k₁ ∈ m.keys :=
  mem_keysIn_setIn h

theorem mem_keys_foldl_set {v : ν} {l : List κ} {m : OrdMap κ ν} {k : κ}
    (h : k ∈ (l.foldl (fun m k => m.set k v) m).keys) : k ∈ l ∨ k ∈ m.keys := by
  induction l generalizing m with
  | nil => exact .inr h
  | cons k' l ih =>
    rcases ih h with h | h
    · exact .inl (List.mem_cons_of_mem _ h)
    · rcases mem_keys_set h with rfl | h
      · exact .inl List.mem_cons_self
      · exact .inr h

/-- The set of a list of keys: of keys that compare the same, the first stays. -/
def ofKeys (l : List κ) : OrdMap κ Unit := l.foldl (fun m k => m.set k ()) empty

theorem mem_of_mem_ofKeys {l : List κ} {k : κ} (h : k ∈ (ofKeys l).keys) : k ∈ l := by
  rcases mem_keys_foldl_set h with h | h
  · exact h
  · cases h

/-- Every key of the list is there up to the comparison. -/
theorem exists_same_ofKeys {l : List κ} {k : κ} (h : k ∈ l) : ∃ k' ∈ (ofKeys l).keys, same k k' = true := by
  have hc : (ofKeys l).contains k = true := by
    rw [ofKeys, contains_foldl_set, List.any_eq_true.mpr ⟨k, h, same_refl k⟩, Bool.true_or]
  obtain ⟨v, hv⟩ := Option.isSome_iff_exists.mp hc
  obtain ⟨k', hs, hm⟩ := mem_of_find hv
  exact ⟨k', List.mem_map.mpr ⟨_, hm, rfl⟩, hs⟩

theorem mem_keysIn_of_mem {k k₁ : κ} {v : ν} {l : List (κ × ν)} (h : k₁ ∈ l.map Prod.fst) :
    k₁ ∈ (setIn k v l).map Prod.fst := by
  induction l with
  | nil => simp at h
  | cons e l ih =>
    obtain ⟨k', v'⟩ := e
    simp only [setIn]
    split
    · exact List.mem_cons_of_mem _ h
    · split
      · simp only [List.map_cons, List.mem_cons] at h ⊢
        exact h.imp_right ih
      · simpa using h

theorem not_mem_keys_of_not_contains {m : OrdMap κ ν} {k k₁ : κ} (h : m.contains k = false)
    (hs : same k k₁ = true) : k₁ ∉ m.keys := by
  intro hk
  have hc := contains_of_mem_keys hk
  rw [contains, ← find_congr hs] at hc
  simp [contains] at h
  simp [h] at hc

/-- Assigning adds the key when nothing is stored under it. -/
theorem mem_keys_set_iff {m : OrdMap κ ν} {k k₁ : κ} {v : ν} :
    k₁ ∈ (m.set k v).keys ↔ k₁ ∈ m.keys ∨ k₁ = k ∧ m.contains k = false := by
  constructor
  · intro h
    cases hc : m.contains k with
    | true =>
      rw [keys_set_of_contains hc] at h
      exact .inl h
    | false =>
      rcases mem_keys_set h with h | h
      · exact .inr ⟨h, rfl⟩
      · exact .inl h
  · rintro (h | ⟨rfl, hc⟩)
    · exact mem_keysIn_of_mem h
    · obtain ⟨k', hs, hm⟩ := mem_of_find (find_set_self m k₁ v)
      have hk' : k' ∈ (m.set k₁ v).keys := List.mem_map.mpr ⟨_, hm, rfl⟩
      rcases mem_keys_set hk' with rfl | hk
      · exact hk'
      · exact absurd hk (not_mem_keys_of_not_contains hc hs)

theorem keysIn_setIn_congr {μ : Type} {k : κ} {v : ν} {w : μ} {l : List (κ × ν)} {l' : List (κ × μ)}
    (h : l.map Prod.fst = l'.map Prod.fst) :
    (setIn k v l).map Prod.fst = (setIn k w l').map Prod.fst := by
  induction l generalizing l' with
  | nil =>
    cases l' with
    | nil => rfl
    | cons e l' => simp at h
  | cons e l ih =>
    cases l' with
    | nil => simp at h
    | cons e' l' =>
      simp only [List.map_cons, List.cons.injEq] at h
      simp only [setIn, ← h.1]
      split
      · simp [h]
      · split
        · simp [ih h.2]
        · simp [h.2]

/-- Where a key goes depends on the keys alone. -/
theorem keys_set_congr {μ : Type} {m : OrdMap κ ν} {n : OrdMap κ μ} (h : m.keys = n.keys) (k : κ)
    (v : ν) (w : μ) : (m.set k v).keys = (n.set k w).keys :=
  keysIn_setIn_congr h

theorem contains_congr {μ : Type} {m : OrdMap κ ν} {n : OrdMap κ μ} (h : m.keys = n.keys) (k : κ) :
    m.contains k = n.contains k := by
  obtain ⟨l, hl⟩ := m
  obtain ⟨l', hl'⟩ := n
  simp only [keys, contains, find] at h ⊢
  clear hl hl'
  induction l generalizing l' with
  | nil =>
    cases l' with
    | nil => rfl
    | cons e l' => simp at h
  | cons e l ih =>
    cases l' with
    | nil => simp at h
    | cons e' l' =>
      simp only [List.map_cons, List.cons.injEq] at h
      simp only [findIn, ← h.1]
      split
      · rfl
      · exact ih l' h.2

theorem mem_keys_of_mem {m : OrdMap κ ν} {k : κ} {v : ν} (h : (k, v) ∈ m.entries) : k ∈ m.keys :=
  List.mem_map.mpr ⟨_, h, rfl⟩

theorem keys_pairwise (m : OrdMap κ ν) : m.keys.Pairwise fun a b => lt a b = true :=
  List.pairwise_map.mpr m.sorted

theorem keys_nodup (m : OrdMap κ ν) : m.keys.Nodup := by
  refine m.keys_pairwise.imp fun {a b} hlt hab => ?_
  subst hab
  simp [WeakOrder.irrefl] at hlt

/-- Two stored keys that compare the same are one. -/
theorem eq_of_same {m : OrdMap κ ν} {k k₁ : κ} (h : k ∈ m.keys) (h₁ : k₁ ∈ m.keys)
    (hs : same k k₁ = true) : k = k₁ := by
  obtain ⟨i, hi, rfl⟩ := List.getElem_of_mem h
  obtain ⟨j, hj, rfl⟩ := List.getElem_of_mem h₁
  have hp := List.pairwise_iff_getElem.mp m.keys_pairwise
  rcases Nat.lt_trichotomy i j with hij | rfl | hij
  · simp [not_same_of_lt (hp i j hi hj hij)] at hs
  · rfl
  · rw [same_comm] at hs
    simp [not_same_of_lt (hp j i hj hi hij)] at hs

theorem mem_keys_of_foldl_set {l : List κ} {m : OrdMap κ Unit} {k : κ} (hc : m.contains k = true)
    (h : k ∈ (l.foldl (fun m k => m.set k ()) m).keys) : k ∈ m.keys := by
  induction l generalizing m with
  | nil => exact h
  | cons k' l ih =>
    have hc' : (m.set k' ()).contains k = true := by
      rw [contains, find_set]
      split
      · rfl
      · exact hc
    rcases mem_keys_set_iff.mp (ih hc' h) with hk | ⟨rfl, hnot⟩
    · exact hk
    · rw [hc] at hnot
      cases hnot

/-- Of elements that are the same a set keeps the first. -/
theorem ofKeys_keeps_first {l₁ l₂ : List κ} {k x : κ} (hk : k ∈ (ofKeys (l₁ ++ l₂)).keys) (hx : x ∈ l₁)
    (hs : same x k = true) : k ∈ l₁ := by
  obtain ⟨x', hx', hxx'⟩ := exists_same_ofKeys hx
  have hc : (ofKeys l₁).contains k = true := by
    rw [contains, find_congr (same_trans (same_symm hs) hxx')]
    exact contains_of_mem_keys hx'
  rw [ofKeys, List.foldl_append] at hk
  exact mem_of_mem_ofKeys (mem_keys_of_foldl_set hc hk)

/-- The first of the elements that are the same is the one that a set keeps. -/
theorem find?_of_mem_ofKeys {l : List κ} {k : κ} (hk : k ∈ (ofKeys l).keys) :
    l.find? (same k) = some k := by
  obtain ⟨x, hx⟩ := Option.isSome_iff_exists.mp
    (List.find?_isSome.mpr ⟨k, mem_of_mem_ofKeys hk, same_refl k⟩)
  obtain ⟨hsame, l₁, l₂, rfl, hbefore⟩ := List.find?_eq_some_iff_append.mp hx
  rw [List.append_cons] at hk
  have hmem := ofKeys_keeps_first hk (List.mem_append_right _ List.mem_cons_self) (same_symm hsame)
  rcases List.mem_append.mp hmem with hold | hnew
  · simpa [same_refl] using hbefore k hold
  · rw [hx, List.mem_singleton.mp hnew]

/-- The stored key that compares the same. -/
def keyOf (m : OrdMap κ ν) (k : κ) : Option κ := m.keys.find? (same k)

theorem keyOf_eq_some {m : OrdMap κ ν} {k x : κ} : m.keyOf k = some x ↔ x ∈ m.keys ∧ same k x = true := by
  constructor
  · intro h
    exact ⟨List.mem_of_find?_eq_some h, List.find?_some h⟩
  · rintro ⟨hx, hs⟩
    obtain ⟨y, hy⟩ := Option.isSome_iff_exists.mp (List.find?_isSome.mpr ⟨x, hx, hs⟩)
    rw [keyOf, hy, eq_of_same (List.mem_of_find?_eq_some hy) hx (same_trans (same_symm (List.find?_some hy)) hs)]

theorem isSome_keyOf (m : OrdMap κ ν) (k : κ) : (m.keyOf k).isSome = m.contains k := by
  rw [Bool.eq_iff_iff, Option.isSome_iff_exists]
  constructor
  · rintro ⟨x, hx⟩
    obtain ⟨hmem, hs⟩ := keyOf_eq_some.mp hx
    rw [contains, find_congr hs]
    exact contains_of_mem_keys hmem
  · intro hc
    obtain ⟨v, hv⟩ := Option.isSome_iff_exists.mp hc
    obtain ⟨x, hs, hm⟩ := mem_of_find hv
    exact ⟨x, keyOf_eq_some.mpr ⟨mem_keys_of_mem hm, hs⟩⟩

/-- An assignment stores its key where nothing compares the same yet. -/
theorem keyOf_set (m : OrdMap κ ν) (k k₁ : κ) (v : ν) :
    (m.set k v).keyOf k₁ = (m.keyOf k₁).or (if same k₁ k then some k else none) := by
  cases hk : m.keyOf k₁ with
  | some x =>
    obtain ⟨hx, hs⟩ := keyOf_eq_some.mp hk
    exact keyOf_eq_some.mpr ⟨mem_keys_set_iff.mpr (.inl hx), hs⟩
  | none =>
    have hnone : m.contains k₁ = false := by rw [← isSome_keyOf, hk]; rfl
    rw [Option.none_or]
    split
    · rename_i hs
      have hk' : m.contains k = false := by rw [contains, ← find_congr hs]; exact hnone
      exact keyOf_eq_some.mpr ⟨mem_keys_set_iff.mpr (.inr ⟨rfl, hk'⟩), hs⟩
    · rename_i hs
      rw [← Option.isNone_iff_eq_none, ← Option.not_isSome, isSome_keyOf, contains_set, hnone]
      simp [hs]

theorem keyOf_congr {μ : Type} {m : OrdMap κ ν} {n : OrdMap κ μ} (h : m.keys = n.keys) (k : κ) :
    m.keyOf k = n.keyOf k := by rw [keyOf, keyOf, h]

/-- A set has the first of the elements that compare the same. -/
theorem keyOf_ofKeys (l : List κ) (k : κ) : (ofKeys l).keyOf k = l.find? (same k) := by
  cases hf : l.find? (same k) with
  | some x =>
    have hs := List.find?_some hf
    obtain ⟨y, hy, hxy⟩ := exists_same_ofKeys (List.mem_of_find?_eq_some hf)
    have hky := same_trans hs hxy
    have hfun : same k = same y := funext fun z => same_congr hky z
    rw [hfun, find?_of_mem_ofKeys hy] at hf
    cases hf
    exact keyOf_eq_some.mpr ⟨hy, hs⟩
  | none =>
    rw [← Option.not_isSome_iff_eq_none]
    intro hsome
    obtain ⟨x, hx⟩ := Option.isSome_iff_exists.mp hsome
    obtain ⟨hmem, hs⟩ := keyOf_eq_some.mp hx
    exact List.find?_eq_none.mp hf x (mem_of_mem_ofKeys hmem) hs

/-- In whatever order the elements come, the set keeps one with the property iff
all of some that are the same have it. -/
theorem ofKeys_perm_meets_iff {p : κ → Prop} {l : List κ} :
    (∀ l', l'.Perm l → ∃ k ∈ (ofKeys l').keys, p k) ↔ ∃ g ∈ l, ∀ k ∈ l, same g k = true → p k := by
  classical
  constructor
  · intro h
    by_contra hnone
    simp only [not_exists, not_and, not_forall] at hnone
    -- those without the property come first, so that one of them is kept of each kind
    obtain ⟨k, hk, hpk⟩ := h (l.filter (fun k => !decide (p k)) ++ l.filter fun k => decide (p k))
      (by simpa using List.filter_append_perm (fun k => !decide (p k)) l)
    have hkl : k ∈ l := by
      have := mem_of_mem_ofKeys hk
      simp only [List.mem_append, List.mem_filter] at this
      exact this.elim And.left And.left
    obtain ⟨x, hx, hs, hpx⟩ := hnone k hkl
    have hfirst := ofKeys_keeps_first hk (List.mem_filter.mpr ⟨hx, by simpa using hpx⟩) (same_symm hs)
    simp only [List.mem_filter, Bool.not_eq_true', decide_eq_false_iff_not] at hfirst
    exact hfirst.2 hpk
  · rintro ⟨g, hg, hall⟩ l' hl'
    obtain ⟨k, hk, hs⟩ := exists_same_ofKeys (hl'.mem_iff.mpr hg)
    exact ⟨k, hk, hall k (hl'.mem_iff.mp (mem_of_mem_ofKeys hk)) hs⟩

/-- A set keeps one of the elements that are the same. It stands for all of them
in the sense of `R` iff those that are the same are related by it. -/
theorem ofKeys_represents_iff {R : κ → κ → Prop} (hsame : ∀ {a b}, R a b → same a b = true)
    (hsymm : ∀ {a b}, R a b → R b a) (htrans : ∀ {a b c}, R a b → R b c → R a c) {l : List κ} :
    (∀ a ∈ l, ∃ b ∈ (ofKeys l).keys, R a b) ↔ ∀ a ∈ l, ∀ b ∈ l, same a b = true → R a b := by
  constructor
  · intro h a ha b hb hab
    obtain ⟨a', ha', hRa⟩ := h a ha
    obtain ⟨b', hb', hRb⟩ := h b hb
    have heq : a' = b' :=
      eq_of_same ha' hb' (same_trans (same_symm (hsame hRa)) (same_trans hab (hsame hRb)))
    exact htrans hRa (heq ▸ hsymm hRb)
  · intro h a ha
    obtain ⟨b, hb, hab⟩ := exists_same_ofKeys ha
    exact ⟨b, hb, h a ha b (mem_of_mem_ofKeys hb) hab⟩

theorem mem_keys_of_find [TotalKey κ] {m : OrdMap κ ν} {k : κ} {v : ν} (h : m.find k = some v) : k ∈ m.keys := by
  obtain ⟨k', hk, hmem⟩ := mem_of_find h
  rw [same_iff_eq.mp hk]
  exact mem_keys_of_mem hmem

theorem mem_keys_ofKeys_iff [TotalKey κ] {l : List κ} {k : κ} : k ∈ (ofKeys l).keys ↔ k ∈ l := by
  constructor
  · exact mem_of_mem_ofKeys
  · intro hk
    obtain ⟨k', hk', hs⟩ := exists_same_ofKeys hk
    rwa [same_iff_eq.mp hs]

/-- A set has as many elements as the list that it is built from iff none is repeated there. -/
theorem size_ofKeys_eq_iff [TotalKey κ] {l : List κ} : (ofKeys l).size = l.length ↔ l.Nodup := by
  have hsize : (ofKeys l).size = (ofKeys l).keys.length := by rw [keys, List.length_map, size]
  rw [hsize]
  constructor
  · intro h
    have hsub := List.subperm_of_subset (ofKeys l).keys_nodup fun k hk => mem_of_mem_ofKeys hk
    exact (hsub.perm_of_length_le (Nat.le_of_eq h.symm)).nodup_iff.mp (ofKeys l).keys_nodup
  · intro h
    exact ((List.perm_ext_iff_of_nodup (ofKeys l).keys_nodup h).mpr fun k => mem_keys_ofKeys_iff).length_eq

theorem setIn_greatest {k : κ} {v : ν} {l : List (κ × ν)} (h : ∀ e ∈ l, lt e.1 k = true) :
    setIn k v l = l ++ [(k, v)] := by
  induction l with
  | nil => rfl
  | cons e l ih =>
    obtain ⟨k', v'⟩ := e
    have hk' : lt k' k = true := h (k', v') List.mem_cons_self
    have hnot : ¬ lt k k' = true := fun hlt => by simpa [WeakOrder.irrefl] using trans hlt hk'
    rw [setIn, if_neg hnot, if_pos hk', ih fun e he => h e (List.mem_cons_of_mem _ he), List.cons_append]

/-- A key above all others comes last. -/
theorem entries_set_greatest {m : OrdMap κ ν} {k : κ} (v : ν) (h : ∀ e ∈ m.entries, lt e.1 k = true) :
    (m.set k v).entries = m.entries ++ [(k, v)] :=
  setIn_greatest h

theorem find_none_of_greatest {m : OrdMap κ ν} {k : κ} (h : ∀ e ∈ m.entries, lt e.1 k = true) : m.find k = none := by
  cases hf : m.find k with
  | none => rfl
  | some v =>
    obtain ⟨k', hs, hm⟩ := mem_of_find hf
    have hlt := h (k', v) hm
    rw [same_comm, not_same_of_lt hlt] at hs
    cases hs

/-- Dropping the first entry only forgets. -/
theorem find_of_find_eraseFirst {m : OrdMap κ ν} {k : κ} {v : ν}
    (h : m.eraseFirst.find k = some v) : m.find k = some v := by
  obtain ⟨k', hs, hm⟩ := mem_of_find h
  rw [find_congr hs]
  exact find_of_mem (List.mem_of_mem_tail hm)

/-! ### Entries up to their order -/

section Entries

variable {m : OrdMap κ ν} {k : κ} {v : ν}

theorem setIn_perm {l : List (κ × ν)} (h : findIn k l = none) : (setIn k v l).Perm ((k, v) :: l) := by
  induction l with
  | nil => exact .refl _
  | cons e l ih =>
    obtain ⟨k', v'⟩ := e
    simp only [findIn] at h
    split at h
    · cases h
    · rename_i hne
      simp only [setIn]
      split
      · exact .refl _
      · rename_i hlt
        split
        · exact ((ih h).cons _).trans (.swap ..)
        · rename_i hgt
          exact absurd (same_iff.mpr ⟨by simpa using hlt, by simpa using hgt⟩) hne

/-- A new key comes with its entry. -/
theorem entries_set_perm (h : m.find k = none) (v : ν) : (m.set k v).entries.Perm ((k, v) :: m.entries) :=
  setIn_perm h

theorem filter_perm {l : List (κ × ν)} (hs : l.Pairwise fun a b => lt a.1 b.1 = true) (h : findIn k l = some v) :
    ∃ k', same k k' = true ∧ l.Perm ((k', v) :: l.filter fun e => !same k e.1) := by
  induction l with
  | nil => cases h
  | cons e l ih =>
    obtain ⟨k', v'⟩ := e
    rw [List.pairwise_cons] at hs
    simp only [findIn] at h
    split at h
    · rename_i hsame
      cases h
      have hnone : ∀ x ∈ l, same k x.1 = false := fun x hx => by
        rw [same_congr hsame]
        exact not_same_of_lt (hs.1 x hx)
      refine ⟨k', hsame, ?_⟩
      rw [List.filter_cons_of_neg (by simp [hsame]), List.filter_eq_self.mpr fun x hx => by simp [hnone x hx]]
    · rename_i hne
      obtain ⟨k₂, hs₂, hp⟩ := ih hs.2 h
      refine ⟨k₂, hs₂, ?_⟩
      rw [List.filter_cons_of_pos (by simpa using hne)]
      exact (hp.cons _).trans (.swap ..)

/-- A stored key goes with its entry. -/
theorem entries_erase_perm (h : m.find k = some v) :
    ∃ k', same k k' = true ∧ m.entries.Perm ((k', v) :: (m.erase k).entries) :=
  filter_perm m.sorted h

theorem filter_setIn (k : κ) (v : ν) (l : List (κ × ν)) :
    ((setIn k v l).filter fun e => !same k e.1) = l.filter fun e => !same k e.1 := by
  induction l with
  | nil => simp [setIn]
  | cons e l ih =>
    obtain ⟨k', v'⟩ := e
    simp only [setIn]
    split
    · rw [List.filter_cons_of_neg (by simp)]
    · rename_i hlt
      split
      · simp only [List.filter_cons, ih]
      · rename_i hgt
        have hsame : same k k' = true := same_iff.mpr ⟨by simpa using hlt, by simpa using hgt⟩
        rw [List.filter_cons_of_neg (by simp [hsame]), List.filter_cons_of_neg (by simp [hsame])]

/-- What an assignment leaves of the other entries. -/
theorem entries_erase_set (m : OrdMap κ ν) (k : κ) (v : ν) : ((m.set k v).erase k).entries = (m.erase k).entries :=
  filter_setIn k v m.entries

end Entries

end OrdMap

/-! ### Loops over keys -/

section Loops

variable {σ κ β : Type} [DecidableEq κ]

/-- A loop whose body changes what is observed at its own key only: afterwards
every key of the list has been changed once, the others not at all. -/
theorem foldl_keys {f : σ → κ → σ} {obs : σ → κ → β} {want : κ → β → β} {I : σ → Prop} {K : κ → Prop}
    (hbody : ∀ s k, I s → K k → I (f s k) ∧
      ∀ k', K k' → obs (f s k) k' = if k' = k then want k (obs s k) else obs s k')
    {ks : List κ} (hnd : ks.Nodup) (hK : ∀ k ∈ ks, K k) {s : σ} (hI : I s) :
    I (ks.foldl f s) ∧
      ∀ k', K k' → obs (ks.foldl f s) k' = if k' ∈ ks then want k' (obs s k') else obs s k' := by
  induction ks generalizing s with
  | nil => exact ⟨hI, fun k' _ => by simp⟩
  | cons k ks ih =>
    rw [List.nodup_cons] at hnd
    obtain ⟨hI', hone⟩ := hbody s k hI (hK k (by simp))
    obtain ⟨hend, hrest⟩ := ih hnd.2 (fun k' hk' => hK k' (by simp [hk'])) hI'
    refine ⟨hend, fun k' hk' => ?_⟩
    rw [List.foldl_cons, hrest k' hk', hone k' hk']
    by_cases hkk : k' = k
    · subst hkk
      simp [hnd.1]
    · simp [hkk]

end Loops
