import Mathlib.Tactic.Common

/-!
# Pools of threads

A pool is the list of the program points of its threads, in no meaningful
order. One thread takes a step: it moves to another point, or it ends and
leaves the pool. Invariants over a pool are statements about every point in it
or about how many threads stand at points of a kind, so the two rules below are
what a step does to membership and to counts.
-/
namespace Threads

variable {β : Type}

/-- Thread `i` moves to the given point, or leaves the pool. -/
def advance (l : List β) (i : Nat) : Option β → List β
  | some b => l.set i b
  | none => l.eraseIdx i

theorem mem_advance {l : List β} {i : Nat} {x : Option β} {c : β} (h : c ∈ advance l i x) :
    c ∈ l ∨ x = some c := by
  cases x with
  | none => exact .inl (List.mem_of_mem_eraseIdx h)
  | some b =>
    rcases List.mem_or_eq_of_mem_set h with h | h
    · exact .inl h
    · exact .inr (by rw [h])

theorem mem_of_at {l : List β} {i : Nat} {b : β} (h : l[i]? = some b) : b ∈ l :=
  List.mem_of_getElem? h

/-- What a step does to the number of threads at points of one kind. -/
theorem countP_advance (p : β → Bool) {l : List β} {i : Nat} {b : β} (h : l[i]? = some b)
    (x : Option β) :
    (advance l i x).countP p + (p b).toNat = l.countP p + (x.elim 0 fun c => (p c).toNat) := by
  induction l generalizing i with
  | nil => simp at h
  | cons a l ih =>
    cases i with
    | zero =>
      simp only [List.getElem?_cons_zero, Option.some.injEq] at h
      subst h
      cases x with
      | none => cases ha : p a <;> simp [advance, ha]
      | some c => cases ha : p a <;> cases hc : p c <;> simp [advance, ha, hc]
    | succ i =>
      simp only [List.getElem?_cons_succ] at h
      have hi := ih h
      cases x with
      | none =>
        simp only [advance, Option.elim, List.eraseIdx_cons_succ, List.countP_cons] at hi ⊢
        omega
      | some c =>
        simp only [advance, Option.elim, List.set_cons_succ, List.countP_cons] at hi ⊢
        omega

theorem countP_pos_of_at {p : β → Bool} {l : List β} {i : Nat} {b : β} (h : l[i]? = some b)
    (hp : p b = true) : 0 < l.countP p :=
  List.countP_pos_iff.mpr ⟨b, mem_of_at h, hp⟩

theorem toNat_le_countP (p : β → Bool) {l : List β} {i : Nat} {b : β} (h : l[i]? = some b) :
    (p b).toNat ≤ l.countP p := by
  cases hb : p b with
  | false => exact Nat.zero_le _
  | true => exact countP_pos_of_at h hb

theorem countP_eq_zero_of {p : β → Bool} {l : List β} (h : ∀ b ∈ l, p b = false) :
    l.countP p = 0 :=
  List.countP_eq_zero.mpr fun b hb => by simp [h b hb]

/-- Two different threads are counted twice. -/
theorem eq_of_countP_le_one {p : β → Bool} {l : List β} (hc : l.countP p ≤ 1) {i j : Nat} {a b : β}
    (hi : l[i]? = some a) (hj : l[j]? = some b) (ha : p a = true) (hb : p b = true) : i = j := by
  induction l generalizing i j with
  | nil => simp at hi
  | cons c l ih =>
    rw [List.countP_cons] at hc
    cases i with
    | zero =>
      cases j with
      | zero => rfl
      | succ j =>
        simp only [List.getElem?_cons_zero, Option.some.injEq] at hi
        simp only [List.getElem?_cons_succ] at hj
        have hpos := countP_pos_of_at hj hb
        simp only [hi, ha, if_true] at hc
        omega
    | succ i =>
      cases j with
      | zero =>
        simp only [List.getElem?_cons_zero, Option.some.injEq] at hj
        simp only [List.getElem?_cons_succ] at hi
        have hpos := countP_pos_of_at hi ha
        simp only [hj, hb, if_true] at hc
        omega
      | succ j =>
        simp only [List.getElem?_cons_succ] at hi hj
        rw [ih (by omega) hi hj]

/-- A step of a thread of the first of two pools that are looked at together. -/
theorem advance_append_left {l : List β} {i : Nat} (h : i < l.length) (m : List β) (x : Option β) :
    advance (l ++ m) i x = advance l i x ++ m := by
  cases x with
  | none => exact List.eraseIdx_append_of_lt_length h m
  | some b => exact List.set_append_left i b h

/-- A step of a single thread that is looked at together with a pool. -/
theorem advance_append_singleton (l : List β) (b : β) (x : Option β) :
    advance (l ++ [b]) l.length x = l ++ x.toList := by
  cases x with
  | none => simp [advance, List.eraseIdx_append_of_length_le]
  | some c => simp [advance]

theorem find?_of_at {p : β → Bool} {l : List β} {i : Nat} {b : β} (hc : l.countP p ≤ 1)
    (h : l[i]? = some b) (hb : p b = true) : l.find? p = some b := by
  cases hf : l.find? p with
  | none => exact absurd hb (by simpa using List.find?_eq_none.mp hf b (mem_of_at h))
  | some c =>
    obtain ⟨j, hj⟩ := List.mem_iff_getElem?.mp (List.mem_of_find?_eq_some hf)
    have hij := eq_of_countP_le_one hc h hj hb (List.find?_some hf)
    subst hij
    rw [← hj, h]

/-- Where at most one thread is of a kind, its step decides which one is. -/
theorem find?_advance {p : β → Bool} {l : List β} {i : Nat} {b : β} (hc : l.countP p ≤ 1)
    (h : l[i]? = some b) (hb : p b = true) (x : Option β) :
    (advance l i x).find? p = x.filter p := by
  have hcount := countP_advance p h x
  rw [hb, Bool.toNat_true] at hcount
  cases x with
  | none =>
    rw [Option.filter_none, List.find?_eq_none]
    simp only [Option.elim_none] at hcount
    exact List.countP_eq_zero.mp (by omega)
  | some c =>
    simp only [Option.elim_some] at hcount
    cases hpc : p c with
    | false =>
      rw [hpc, Bool.toNat_false] at hcount
      rw [Option.filter_some, hpc, if_neg (by simp), List.find?_eq_none]
      exact List.countP_eq_zero.mp (by omega)
    | true =>
      rw [hpc, Bool.toNat_true] at hcount
      have hlt : i < l.length := (List.getElem?_eq_some_iff.mp h).1
      rw [Option.filter_some, hpc, if_pos rfl]
      exact find?_of_at (i := i) (by omega) (by simp [advance, hlt]) hpc

/-- The end of a thread that is not of the kind changes nothing. -/
theorem find?_eraseIdx {p : β → Bool} {l : List β} {i : Nat} {b : β} (h : l[i]? = some b)
    (hb : p b = false) : (advance l i none).find? p = l.find? p := by
  induction l generalizing i with
  | nil => simp at h
  | cons a l ih =>
    cases i with
    | zero =>
      simp only [List.getElem?_cons_zero, Option.some.injEq] at h
      simp [advance, h, hb]
    | succ i =>
      simp only [List.getElem?_cons_succ] at h
      simp only [advance, List.eraseIdx_cons_succ, List.find?_cons]
      split
      · rfl
      · exact ih h

section FilterMap

variable {γ : Type} {f : β → Option γ} {p : β → Bool}

/-- A step between two points that show nothing. -/
theorem filterMap_advance_of_none {l : List β} {i : Nat} {b : β} (h : l[i]? = some b) (hb : f b = none) {x : Option β}
    (hx : x.bind f = none) : (advance l i x).filterMap f = l.filterMap f := by
  induction l generalizing i with
  | nil => simp at h
  | cons a l ih =>
    cases i with
    | zero =>
      simp only [List.getElem?_cons_zero, Option.some.injEq] at h
      subst h
      cases x with
      | none => simp [advance, hb]
      | some c =>
        rw [Option.bind_some] at hx
        simp [advance, hb, hx]
    | succ i =>
      simp only [List.getElem?_cons_succ] at h
      have hi := ih h
      cases x with
      | none =>
        simp only [advance, List.eraseIdx_cons_succ, List.filterMap_cons] at hi ⊢
        rw [hi]
      | some c =>
        simp only [advance, List.set_cons_succ, List.filterMap_cons] at hi ⊢
        rw [hi]

theorem filterMap_eq_nil_of_countP {l : List β} (hf : ∀ c, p c = false → f c = none) (hc : l.countP p = 0) :
    l.filterMap f = [] :=
  List.filterMap_eq_nil_iff.mpr fun c hmem => hf c (by simpa using List.countP_eq_zero.mp hc c hmem)

/-- Where only threads of one kind show something and there is at most one of them, it
is all there is to see. -/
theorem filterMap_of_at {l : List β} {i : Nat} {b : β} (hf : ∀ c, p c = false → f c = none) (hc : l.countP p ≤ 1)
    (h : l[i]? = some b) (hb : p b = true) : l.filterMap f = (f b).toList := by
  induction l generalizing i with
  | nil => simp at h
  | cons a l ih =>
    rw [List.countP_cons] at hc
    cases i with
    | zero =>
      simp only [List.getElem?_cons_zero, Option.some.injEq] at h
      subst h
      rw [if_pos hb] at hc
      have hnil := filterMap_eq_nil_of_countP (l := l) hf (by omega)
      cases hfa : f a with
      | none => rw [List.filterMap_cons_none hfa, hnil, Option.toList_none]
      | some y => rw [List.filterMap_cons_some hfa, hnil, Option.toList_some]
    | succ i =>
      simp only [List.getElem?_cons_succ] at h
      have hpos := countP_pos_of_at h hb
      have ha : p a = false := by
        cases hpa : p a with
        | false => rfl
        | true =>
          rw [hpa, if_pos rfl] at hc
          omega
      rw [List.filterMap_cons_none (hf a ha)]
      exact ih (by omega) h

theorem filterMap_advance {l : List β} {i : Nat} {b : β} (hf : ∀ c, p c = false → f c = none) (hc : l.countP p ≤ 1)
    (h : l[i]? = some b) (hb : p b = true) (x : Option β) : (advance l i x).filterMap f = (x.bind f).toList := by
  have hcount := countP_advance p h x
  rw [hb, Bool.toNat_true] at hcount
  cases x with
  | none =>
    simp only [Option.elim_none] at hcount
    exact filterMap_eq_nil_of_countP hf (by omega)
  | some c =>
    simp only [Option.elim_some] at hcount
    cases hpc : p c with
    | false =>
      rw [hpc, Bool.toNat_false] at hcount
      rw [Option.bind_some, hf c hpc]
      exact filterMap_eq_nil_of_countP hf (by omega)
    | true =>
      rw [hpc, Bool.toNat_true] at hcount
      have hlt : i < l.length := (List.getElem?_eq_some_iff.mp h).1
      exact filterMap_of_at (i := i) hf (by omega) (by simp [advance, hlt]) hpc

end FilterMap

section Related

variable {γ : Type} {R : β → γ → Prop}

/-- Two lists that go together, after a step of the same thread in both. -/
theorem forall₂_advance {l : List β} {m : List γ} (h : List.Forall₂ R l m) (i : Nat) {x : Option β} {y : Option γ}
    (hxy : Option.Rel R x y) : List.Forall₂ R (advance l i x) (advance m i y) := by
  induction h generalizing i with
  | nil => cases hxy <;> exact .nil
  | cons hab _ ih =>
    cases i with
    | zero =>
      cases hxy with
      | none => assumption
      | some hcd => exact .cons hcd (by assumption)
    | succ i =>
      have ih := ih i
      cases hxy with
      | none => exact .cons hab ih
      | some hcd => exact .cons hab ih

theorem forall₂_at {l : List β} {m : List γ} (h : List.Forall₂ R l m) {i : Nat} {b : β} (hi : l[i]? = some b) :
    ∃ c, m[i]? = some c ∧ R b c := by
  induction h generalizing i with
  | nil => simp at hi
  | cons hab _ ih =>
    cases i with
    | zero =>
      simp only [List.getElem?_cons_zero, Option.some.injEq] at hi
      subst hi
      exact ⟨_, rfl, hab⟩
    | succ i => exact ih hi

end Related

end Threads
