import Mathlib.Data.List.Forall2

/-!
# Documents and what is read from them

A document is a tree of scalars, sequences and maps. The entries of a map stand
in the order of the text, and the first one with a key is the one that is found.
A reader returns a value or fails; two readers agree when both fail or both
return, and then with related values.
-/
namespace Documents

inductive Node where
  | null
  | scalar (text : String)
  | sequence (elements : List Node)
  | map (entries : List (String × Node))

/-- The value under a key. Only maps have any. -/
def Node.find (key : String) : Node → Option Node
  | .map entries => entries.lookup key
  | _ => none

/-! ### Entries -/

section Entries

variable {α : Type}

/-- Assignment through the subscript operator: to the first entry with the key, or
to a new one at the end. -/
def assign (key : String) (value : α) : List (String × α) → List (String × α)
  | [] => [(key, value)]
  | e :: l => if e.1 = key then (key, value) :: l else e :: assign key value l

theorem lookup_cons_eq (key : String) (e : String × α) (l : List (String × α)) :
    (e :: l).lookup key = if key = e.1 then some e.2 else l.lookup key := by
  obtain ⟨k, v⟩ := e
  by_cases h : key = k
  · simp [h]
  · rw [List.lookup_cons, beq_eq_false_iff_ne.mpr h, if_neg h]

@[simp] theorem lookup_assign (key k : String) (value : α) (l : List (String × α)) :
    (assign key value l).lookup k = if k = key then some value else l.lookup k := by
  induction l with
  | nil => simp [assign, lookup_cons_eq]
  | cons e l ih =>
    by_cases he : e.1 = key
    · rw [assign, if_pos he, lookup_cons_eq, lookup_cons_eq, he]
      split <;> rfl
    · rw [assign, if_neg he, lookup_cons_eq, lookup_cons_eq, ih]
      by_cases hk : k = e.1
      · simp [hk, he]
      · simp [hk]

/-- The entries whose keys are kept. -/
theorem lookup_filter_key (p : String → Bool) (k : String) (l : List (String × α)) :
    (l.filter fun e => p e.1).lookup k = if p k then l.lookup k else none := by
  induction l with
  | nil => simp
  | cons e l ih =>
    rw [List.filter_cons, lookup_cons_eq]
    by_cases hk : k = e.1
    · by_cases hp : p e.1 = true
      · simp [hp, lookup_cons_eq, hk]
      · rw [if_neg hp, ih, hk, if_neg hp, if_neg hp]
    · by_cases hp : p e.1 = true
      · simp [hp, lookup_cons_eq, hk, ih]
      · simp [hp, ih, hk]

/-- The values changed one by one. -/
theorem lookup_map_value (f : String → α → α) (k : String) (l : List (String × α)) :
    (l.map fun e => (e.1, f e.1 e.2)).lookup k = (l.lookup k).map (f k) := by
  induction l with
  | nil => rfl
  | cons e l ih =>
    by_cases hk : k = e.1
    · simp [lookup_cons_eq, hk]
    · simp only [List.map_cons, lookup_cons_eq, hk, if_false, ih]

end Entries

/-! ### Readers -/

variable {ε δ α β γ ζ : Type}

/-- Both fail, or both return and the values are related. -/
def Agree (R : α → β → Prop) : Except ε α → Except δ β → Prop
  | .ok a, .ok b => R a b
  | .error _, .error _ => True
  | _, _ => False

namespace Agree

/-- A reader agrees with itself on what holds of each value that it returns. -/
theorem of_ok {R : α → α → Prop} {x : Except ε α} (h : ∀ a, x = .ok a → R a a) : Agree R x x := by
  cases x with
  | error e => trivial
  | ok a => exact h a rfl

theorem of_eq {x y : Except ε α} (h : x = y) : Agree Eq x y := h ▸ of_ok fun _ _ => rfl

theorem mono {R S : α → β → Prop} {x : Except ε α} {y : Except δ β} (h : Agree R x y)
    (hrs : ∀ a b, R a b → S a b) : Agree S x y := by
  cases x with
  | error e =>
    cases y with
    | error d => trivial
    | ok b => exact h
  | ok a =>
    cases y with
    | error d => exact h
    | ok b => exact hrs a b h

/-- Readers that agree, followed by readers that agree on related values. -/
theorem bind {R : α → β → Prop} {S : γ → ζ → Prop} {x : Except ε α} {y : Except δ β}
    {f : α → Except ε γ} {g : β → Except δ ζ} (h : Agree R x y)
    (hfg : ∀ a b, R a b → Agree S (f a) (g b)) : Agree S (x >>= f) (y >>= g) := by
  cases x with
  | error e =>
    cases y with
    | error d => trivial
    | ok b => exact h.elim
  | ok a =>
    cases y with
    | error d => exact h.elim
    | ok b => exact hfg a b h

/-- Readers that agree, followed by one and the same reader. -/
theorem bind_same {x : Except ε α} {y : Except ε α} (h : Agree Eq x y) (f : α → Except ε γ) :
    Agree Eq (x >>= f) (y >>= f) := by
  apply bind h
  rintro a _ rfl
  exact of_eq rfl

theorem mapError_right {ε' : Type} {R : α → β → Prop} {x : Except ε α} {y : Except δ β} (h : Agree R x y)
    (f : δ → ε') : Agree R x (y.mapError f) := by
  cases x with
  | error e =>
    cases y with
    | error d => trivial
    | ok b => exact h
  | ok a =>
    cases y with
    | error d => exact h
    | ok b => exact h

theorem mapError {ε' δ' : Type} {R : α → β → Prop} {x : Except ε α} {y : Except δ β} (h : Agree R x y)
    (f : ε → ε') (g : δ → δ') : Agree R (x.mapError f) (y.mapError g) := by
  cases x with
  | error e =>
    cases y with
    | error d => trivial
    | ok b => exact h
  | ok a =>
    cases y with
    | error d => exact h
    | ok b => exact h

/-- Sequences that are read element by element. -/
theorem mapM {R : γ → ζ → Prop} {f : α → Except ε γ} {g : β → Except δ ζ} {l : List α} {m : List β}
    (h : List.Forall₂ (fun a b => Agree R (f a) (g b)) l m) :
    Agree (List.Forall₂ R) (l.mapM f) (m.mapM g) := by
  induction h with
  | nil => exact List.Forall₂.nil
  | cons hab _ ih =>
    rw [List.mapM_cons, List.mapM_cons]
    apply bind hab
    intro c d hcd
    apply bind ih
    intro cs ds hcs
    exact List.Forall₂.cons hcd hcs

/-- Sequences that were changed element by element. -/
theorem mapM_map {f : α → Except ε γ} {g : β → Except δ γ} {change : α → β} {l : List α}
    (h : ∀ a ∈ l, Agree Eq (f a) (g (change a))) : Agree Eq (l.mapM f) ((l.map change).mapM g) := by
  apply mono (mapM _)
  · intro cs ds hcs
    exact List.forall₂_eq_eq_eq ▸ hcs
  · rw [List.forall₂_map_right_iff]
    exact List.forall₂_same.mpr h

end Agree

theorem bind_eq_ok {x : Except ε α} {f : α → Except ε β} {b : β} (h : (x >>= f) = .ok b) :
    ∃ a, x = .ok a ∧ f a = .ok b := by
  cases x with
  | error e => cases h
  | ok a => exact ⟨a, rfl, h⟩

theorem mapError_eq_ok {x : Except ε α} {f : ε → δ} {a : α} (h : x.mapError f = .ok a) : x = .ok a := by
  cases x with
  | error e => cases h
  | ok b => exact congrArg _ (Except.ok.inj h)

/-- A sequence is read when each of its elements is. -/
theorem exists_mapM {f : α → Except ε β} {l : List α} (h : ∀ a ∈ l, ∃ b, f a = .ok b) : ∃ bs, l.mapM f = .ok bs := by
  induction l with
  | nil => exact ⟨[], rfl⟩
  | cons a l ih =>
    obtain ⟨b, hb⟩ := h a List.mem_cons_self
    obtain ⟨bs, hbs⟩ := ih fun a ha => h a (List.mem_cons_of_mem _ ha)
    rw [List.mapM_cons, hb, hbs]
    exact ⟨b :: bs, rfl⟩

theorem mapM_cons_eq_ok {f : α → Except ε β} {a : α} {l : List α} {bs : List β} (h : (a :: l).mapM f = .ok bs) :
    ∃ b cs, f a = .ok b ∧ l.mapM f = .ok cs ∧ bs = b :: cs := by
  rw [List.mapM_cons] at h
  obtain ⟨b, hb, h⟩ := bind_eq_ok h
  obtain ⟨cs, hcs, h⟩ := bind_eq_ok h
  exact ⟨b, cs, hb, hcs, (Except.ok.inj h).symm⟩

/-- A sequence is read element by element. -/
theorem mapM_eq_ok_iff {f : α → Except ε β} {l : List α} {bs : List β} :
    l.mapM f = .ok bs ↔ List.Forall₂ (fun a b => f a = .ok b) l bs := by
  induction l generalizing bs with
  | nil =>
    rw [List.forall₂_nil_left_iff]
    constructor
    · intro h
      exact (Except.ok.inj h).symm
    · rintro rfl
      rfl
  | cons a l ih =>
    constructor
    · intro h
      obtain ⟨b, cs, hb, hcs, rfl⟩ := mapM_cons_eq_ok h
      exact .cons hb (ih.mp hcs)
    · intro h
      cases h with
      | cons hb hcs =>
        rw [List.mapM_cons, hb, ih.mpr hcs]
        rfl

/-- What was read comes from elements of the sequence. -/
theorem exists_of_mem_read {f : α → Except ε β} {l : List α} {bs : List β} (h : l.mapM f = .ok bs) {b : β}
    (hb : b ∈ bs) : ∃ a ∈ l, f a = .ok b := by
  induction l generalizing bs with
  | nil =>
    cases Except.ok.inj h
    cases hb
  | cons a l ih =>
    obtain ⟨c, cs, hc, hcs, rfl⟩ := mapM_cons_eq_ok h
    rcases List.mem_cons.mp hb with rfl | hb
    · exact ⟨a, List.mem_cons_self, hc⟩
    · obtain ⟨a', ha', hread⟩ := ih hcs hb
      exact ⟨a', List.mem_cons_of_mem _ ha', hread⟩

theorem exists_read_of_mem {f : α → Except ε β} {l : List α} {bs : List β} (h : l.mapM f = .ok bs) {a : α}
    (ha : a ∈ l) : ∃ b ∈ bs, f a = .ok b := by
  induction l generalizing bs with
  | nil => cases ha
  | cons a' l ih =>
    obtain ⟨c, cs, hc, hcs, rfl⟩ := mapM_cons_eq_ok h
    rcases List.mem_cons.mp ha with rfl | ha
    · exact ⟨c, List.mem_cons_self, hc⟩
    · obtain ⟨b, hb, hread⟩ := ih hcs ha
      exact ⟨b, List.mem_cons_of_mem _ hb, hread⟩

/-- What is found among the values comes from what is found in the sequence. -/
theorem find?_read {f : α → Except ε β} {p : α → Bool} {q : β → Bool}
    (hpq : ∀ a b, f a = .ok b → p a = q b) {l : List α} {bs : List β} (h : l.mapM f = .ok bs) {b : β}
    (hb : bs.find? q = some b) : ∃ a, l.find? p = some a ∧ f a = .ok b := by
  induction l generalizing bs with
  | nil =>
    cases Except.ok.inj h
    cases hb
  | cons a l ih =>
    obtain ⟨c, cs, hc, hcs, rfl⟩ := mapM_cons_eq_ok h
    rw [List.find?_cons, ← hpq a c hc] at hb
    rw [List.find?_cons]
    cases hp : p a with
    | true =>
      rw [hp] at hb
      cases hb
      exact ⟨a, rfl, hc⟩
    | false =>
      rw [hp] at hb
      exact ih hcs hb

end Documents
