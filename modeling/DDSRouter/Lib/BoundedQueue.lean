import Mathlib.Data.List.DropRight
import Mathlib.Order.Lattice
import Mathlib.Tactic.Common

/-!
# Queues with a limit

A queue to which elements are added at the end, and which loses its oldest
element whenever an addition brings it to its limit. So it holds one element
less than the limit at most. A limit of 0 is never reached.
-/
namespace BoundedQueue

variable {α : Type*}

/-- The queue with one element more, without its oldest one if it is at the limit. -/
def push (limit : Nat) (q : List α) (x : α) : List α :=
  if (q ++ [x]).length = limit then (q ++ [x]).tail else q ++ [x]

variable {limit : Nat} {q : List α} {x : α}

theorem push_of_eq (h : q.length + 1 = limit) : push limit q x = (q ++ [x]).tail :=
  if_pos (by simpa using h)

theorem push_of_ne (h : q.length + 1 ≠ limit) : push limit q x = q ++ [x] :=
  if_neg (by simpa using h)

theorem length_push_lt (h : q.length < limit) : (push limit q x).length < limit := by
  by_cases hl : q.length + 1 = limit
  · rw [push_of_eq hl]
    simpa using h
  · rw [push_of_ne hl, List.length_append, List.length_singleton]
    omega

theorem sublist_push : (push limit q x).Sublist (q ++ [x]) := by
  unfold push
  split
  · exact List.tail_sublist _
  · exact List.Sublist.refl _

theorem length_rtake (l : List α) (k : Nat) : (l.rtake k).length = min k l.length := by
  rw [List.rtake, List.length_drop]
  omega

theorem rtake_eq_rtake_iff {l : List α} {j k : Nat} :
    l.rtake j = l.rtake k ↔ min j l.length = min k l.length := by
  constructor
  · intro h
    rw [← length_rtake, ← length_rtake, h]
  · intro h
    have hdrop : l.length - j = l.length - k := by omega
    rw [List.rtake, List.rtake, hdrop]

/-- What is left of the elements that were added. -/
def held (limit : Nat) (xs : List α) : List α := if limit = 0 then xs else xs.rtake (limit - 1)

theorem held_succ (k : Nat) (xs : List α) : held (k + 1) xs = xs.rtake k := rfl

theorem held_concat (limit : Nat) (xs : List α) (x : α) : held limit (xs ++ [x]) = push limit (held limit xs) x := by
  cases limit with
  | zero => exact (push_of_ne (Nat.succ_ne_zero _)).symm
  | succ k =>
    rw [held_succ, held_succ]
    by_cases hk : k ≤ xs.length
    · rw [push_of_eq (by rw [length_rtake]; omega), ← List.rtake_concat_succ]
      have hdrop : (xs ++ [x]).length - (k + 1) + 1 = (xs ++ [x]).length - k := by
        simp only [List.length_append, List.length_singleton]
        omega
      simp only [List.rtake, List.tail_drop, hdrop]
    · rw [push_of_ne (by rw [length_rtake]; omega), ← List.rtake_concat_succ, rtake_eq_rtake_iff]
      simp only [List.length_append, List.length_singleton]
      omega

/-- The additions one after the other. -/
theorem foldl_push (limit : Nat) (xs : List α) : xs.foldl (push limit) [] = held limit xs := by
  induction xs using List.reverseRecOn with
  | nil => cases limit <;> simp [held]
  | append_singleton xs x ih => rw [List.foldl_append, ih, List.foldl_cons, List.foldl_nil, held_concat]

/-! ### Queues of keyed entries, which may also leave by their key -/

/-- The oldest element, when the addition makes it leave. -/
def leaver (limit : Nat) (q : List α) (x : α) : Option α :=
  if (q ++ [x]).length = limit then (q ++ [x]).head? else none

theorem mem_push (h : (q ++ [x]).Nodup) {y : α} :
    y ∈ push limit q x ↔ y ∈ q ++ [x] ∧ leaver limit q x ≠ some y := by
  unfold push leaver
  split
  · cases hl : q ++ [x] with
    | nil => simp
    | cons z l =>
      rw [hl, List.nodup_cons] at h
      simp only [List.tail_cons, List.mem_cons, List.head?_cons, ne_eq, Option.some.injEq]
      constructor
      · intro hy
        refine ⟨.inr hy, ?_⟩
        rintro rfl
        exact h.1 hy
      · rintro ⟨rfl | hy, hne⟩
        · exact absurd rfl hne
        · exact hy
  · simp

theorem mem_of_leaver {y : α} (h : leaver limit q x = some y) : y ∈ q ++ [x] := by
  unfold leaver at h
  split at h
  · exact List.mem_of_mem_head? h
  · cases h

/-- The one that leaves is before all that stay, and they are one less than the limit. -/
theorem leaver_before {R : α → α → Prop} (h : (q ++ [x]).Pairwise R) {y : α} (hy : leaver limit q x = some y) :
    (push limit q x).length = limit - 1 ∧ ∀ z ∈ push limit q x, R y z := by
  unfold leaver at hy
  split at hy
  · rename_i hlen
    rw [push_of_eq (by simpa using hlen), List.length_tail, hlen]
    cases hl : q ++ [x] with
    | nil => simp
    | cons z l =>
      rw [hl] at hy h
      simp only [List.head?_cons, Option.some.injEq] at hy
      subst hy
      exact ⟨rfl, (List.pairwise_cons.mp h).1⟩
  · cases hy

inductive Op (κ ε : Type*) where
  | add (k : κ) (e : ε)
  | get (k : κ)
  | erase (k : κ)

/-- The entries in the queue, and those that it has lost at its limit. -/
structure State (κ ε : Type*) where
  live : List (κ × ε) := []
  dropped : List (κ × ε) := []

variable {κ ε : Type*} [LinearOrder κ]

/-- What an operation makes leave for lack of room. -/
def drops (limit : Nat) (q : List (κ × ε)) : Op κ ε → Option (κ × ε)
  | .add k e => leaver limit q (k, e)
  | .get _ | .erase _ => none

def next (limit : Nat) (q : List (κ × ε)) : Op κ ε → List (κ × ε)
  | .add k e => push limit q (k, e)
  | .get _ => q
  | .erase k => q.filter fun x => x.1 ≠ k

def step (limit : Nat) (s : State κ ε) (op : Op κ ε) : State κ ε :=
  { live := next limit s.live op, dropped := s.dropped ++ (drops limit s.live op).toList }

/-- The queue after the operations. -/
def after (limit : Nat) (ops : List (Op κ ε)) : State κ ε := ops.foldl (step limit) {}

def added : Op κ ε → Option κ
  | .add k _ => some k
  | .get _ | .erase _ => none

/-- Every key that is added is greater than those before. -/
def Increasing (ops : List (Op κ ε)) : Prop := (ops.filterMap added).Pairwise (· < ·)

/-- The entry was added under the key, and the key has not been erased since. -/
def Current (ops : List (Op κ ε)) (k : κ) (e : ε) : Prop :=
  ∃ before since, ops = before ++ .add k e :: since ∧ .erase k ∉ since

variable {ops : List (Op κ ε)} {op : Op κ ε} {s : State κ ε} {k : κ} {e : ε}

omit [LinearOrder κ] in
theorem current_concat : Current (ops ++ [op]) k e ↔ op = .add k e ∨ Current ops k e ∧ op ≠ .erase k := by
  constructor
  · rintro ⟨before, since, heq, hsince⟩
    cases since using List.reverseRecOn with
    | nil =>
      have hlast := List.append_inj_right' heq rfl
      exact .inl (by simpa using hlast)
    | append_singleton since o =>
      rw [← List.cons_append, ← List.append_assoc] at heq
      obtain ⟨rfl, hlast⟩ := List.append_inj' heq rfl
      rw [List.mem_append, not_or, List.mem_singleton] at hsince
      simp only [List.cons.injEq, and_true] at hlast
      subst hlast
      exact .inr ⟨⟨before, since, rfl, hsince.1⟩, Ne.symm hsince.2⟩
  · rintro (rfl | ⟨⟨before, since, rfl, hsince⟩, hne⟩)
    · exact ⟨ops, [], rfl, by simp⟩
    · refine ⟨before, since ++ [op], by simp, ?_⟩
      rw [List.mem_append, not_or, List.mem_singleton]
      exact ⟨hsince, Ne.symm hne⟩

theorem after_concat (limit : Nat) (ops : List (Op κ ε)) (op : Op κ ε) :
    after limit (ops ++ [op]) = step limit (after limit ops) op := by
  rw [after, List.foldl_append, List.foldl_cons, List.foldl_nil, after]

theorem increasing_of_concat (h : Increasing (ops ++ [op])) :
    Increasing ops ∧ ∀ k, added op = some k → ∀ k' ∈ ops.filterMap added, k' < k := by
  rw [Increasing, List.filterMap_append, List.pairwise_append] at h
  refine ⟨h.1, fun k hk k' hk' => h.2.2 k' hk' k ?_⟩
  simp [hk]

/-- The entries are in the order of their keys, come from the operations, and
those in the queue are the ones neither erased nor lost. -/
structure Inv (ops : List (Op κ ε)) (s : State κ ε) : Prop where
  known : ∀ x ∈ s.live ++ s.dropped, x.1 ∈ ops.filterMap added
  sorted : s.live.Pairwise fun x y => x.1 < y.1
  exact : ∀ k e, (k, e) ∈ s.live ↔ Current ops k e ∧ (k, e) ∉ s.dropped

/-- Where a greater key is added the order goes on. -/
theorem sorted_concat {q : List (κ × ε)} (h : q.Pairwise fun x y => x.1 < y.1) (hk : ∀ x ∈ q, x.1 < k) (e : ε) :
    (q ++ [(k, e)]).Pairwise fun x y => x.1 < y.1 :=
  List.pairwise_append.mpr ⟨h, List.pairwise_singleton _ _, fun x hx y hy => by
    rw [List.mem_singleton.mp hy]
    exact hk x hx⟩

theorem nodup_of_sorted {q : List (κ × ε)} (h : q.Pairwise fun x y => x.1 < y.1) : q.Nodup :=
  h.imp fun {x _} hlt heq => absurd (heq ▸ hlt) (lt_irrefl x.1)

theorem inv_step (limit : Nat) (h : Inv ops s) (hop : ∀ k, added op = some k → ∀ k' ∈ ops.filterMap added, k' < k) :
    Inv (ops ++ [op]) (step limit s op) := by
  cases op with
  | get k =>
    refine ⟨?_, h.sorted, fun k' e => ?_⟩
    · simpa [step, next, drops, added] using h.known
    · simpa [step, next, drops, current_concat] using h.exact k' e
  | erase k =>
    refine ⟨fun x hx => ?_, h.sorted.filter _, fun k' e => ?_⟩
    · simp only [step, next, drops, Option.toList_none, List.append_nil, List.mem_append, List.mem_filter] at hx
      simp only [List.filterMap_append, List.mem_append]
      exact .inl (h.known x (List.mem_append.mpr (hx.imp_left And.left)))
    · simp only [step, next, drops, Option.toList_none, List.append_nil, List.mem_filter, h.exact, current_concat,
        reduceCtorEq, false_or, ne_eq, Op.erase.injEq, decide_not, Bool.not_eq_true', decide_eq_false_iff_not]
      tauto
  | add k e =>
    have hbelow : ∀ x ∈ s.live ++ s.dropped, x.1 < k := fun x hx => hop k rfl x.1 (h.known x hx)
    have hsorted : (s.live ++ [(k, e)]).Pairwise fun x y => x.1 < y.1 :=
      sorted_concat h.sorted (fun x hx => hbelow x (List.mem_append_left _ hx)) e
    have hmem : ∀ y, y ∈ push limit s.live (k, e) ↔ y ∈ s.live ++ [(k, e)] ∧ leaver limit s.live (k, e) ≠ some y :=
      fun y => mem_push (nodup_of_sorted hsorted)
    have hfresh : (k, e) ∉ s.dropped := fun hd => lt_irrefl _ (hbelow (k, e) (List.mem_append_right _ hd))
    refine ⟨fun x hx => ?_, hsorted.sublist sublist_push, fun k' e' => ?_⟩
    · simp only [step, next, drops, List.mem_append, Option.mem_toList] at hx
      rw [List.filterMap_append, List.mem_append]
      have hx' : x ∈ s.live ++ [(k, e)] ∨ x ∈ s.dropped := by
        rcases hx with hx | hx | hx
        · exact .inl ((hmem x).mp hx).1
        · exact .inr hx
        · exact .inl (mem_of_leaver hx)
      simp only [List.mem_append, List.mem_singleton] at hx'
      rcases hx' with (hx | rfl) | hx
      · exact .inl (h.known x (List.mem_append_left _ hx))
      · exact .inr (by simp [added])
      · exact .inl (h.known x (List.mem_append_right _ hx))
    · simp only [step, next, drops, hmem, List.mem_append, List.mem_singleton, Option.mem_toList, current_concat,
        h.exact, ne_eq, reduceCtorEq, not_false_eq_true, and_true, Op.add.injEq, Prod.mk.injEq, not_or]
      constructor
      · rintro ⟨hcur | ⟨rfl, rfl⟩, hleaves⟩
        · exact ⟨.inr hcur.1, hcur.2, hleaves⟩
        · exact ⟨.inl ⟨rfl, rfl⟩, hfresh, hleaves⟩
      · rintro ⟨⟨rfl, rfl⟩ | hcur, hdropped, hleaves⟩
        · exact ⟨.inr ⟨rfl, rfl⟩, hleaves⟩
        · exact ⟨.inl ⟨hcur, hdropped⟩, hleaves⟩

theorem inv_after (limit : Nat) (h : Increasing ops) : Inv ops (after limit ops) := by
  induction ops using List.reverseRecOn with
  | nil =>
    refine ⟨fun x hx => (List.not_mem_nil hx).elim, .nil, fun k e => ⟨fun hx => (List.not_mem_nil hx).elim, ?_⟩⟩
    rintro ⟨⟨before, since, heq, -⟩, -⟩
    simp at heq
  | append_singleton ops op ih =>
    obtain ⟨hops, hop⟩ := increasing_of_concat h
    rw [after_concat]
    exact inv_step limit (ih hops) hop

theorem length_next_lt {q : List (κ × ε)} (h : q.length < limit) (op : Op κ ε) :
    (next limit q op).length < limit := by
  cases op with
  | add k e => exact length_push_lt h
  | get k => exact h
  | erase k => exact (List.length_filter_le _ _).trans_lt h

theorem length_after_lt (h : 0 < limit) (ops : List (Op κ ε)) : (after limit ops).live.length < limit := by
  induction ops using List.reverseRecOn with
  | nil => exact h
  | append_singleton ops op ih =>
    rw [after_concat]
    exact length_next_lt ih op

/-- An entry is lost only when all those in the queue were added after it, one
less than the limit. -/
theorem drops_oldest (h : Increasing (ops ++ [op])) {x : κ × ε}
    (hx : drops limit (after limit ops).live op = some x) :
    (after limit (ops ++ [op])).live.length = limit - 1 ∧ ∀ y ∈ (after limit (ops ++ [op])).live, x.1 < y.1 := by
  obtain ⟨hops, hop⟩ := increasing_of_concat h
  have hinv := inv_after limit hops
  rw [after_concat]
  cases op with
  | get k => cases hx
  | erase k => cases hx
  | add k e =>
    refine leaver_before (R := fun x y => x.1 < y.1) (sorted_concat hinv.sorted (fun y hy => ?_) e) hx
    exact hop k rfl y.1 (hinv.known y (List.mem_append_left _ hy))

end BoundedQueue
