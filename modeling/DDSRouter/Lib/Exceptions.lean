import Mathlib.Tactic.Common

/-!
# Exceptions and the boundaries they must not cross

A program returns or throws, and in both cases what it has done to the state
stays; or it ends the process. The process ends where an exception reaches a
`noexcept` boundary, and no handler outside the boundary can prevent that.
-/
namespace Exceptions

variable {ε σ α β : Type}

/-- A program is its effect on the state; `none` is the end of the process. -/
def Prog (ε σ α : Type) := σ → Option (Except ε α × σ)

namespace Prog

instance : Monad (Prog ε σ) where
  pure a := fun s => some (.ok a, s)
  bind x f := fun s => (x s).bind fun
    | (.ok a, s') => f a s'
    | (.error e, s') => some (.error e, s')

instance : MonadExcept ε (Prog ε σ) where
  throw e := fun s => some (.error e, s)
  tryCatch x handle := fun s => (x s).bind fun
    | (.ok a, s') => some (.ok a, s')
    | (.error e, s') => handle e s'

instance : MonadState σ (Prog ε σ) where
  get := fun s => some (.ok s, s)
  set s' := fun _ => some (.ok (), s')
  modifyGet f := fun s => some (.ok (f s).1, (f s).2)

/-- A function that is declared not to throw. -/
def noexcept (x : Prog ε σ α) : Prog ε σ α := fun s => (x s).bind fun
  | (.ok a, s') => some (.ok a, s')
  | (.error _, _) => none

@[simp] theorem pure_apply (a : α) (s : σ) : (pure a : Prog ε σ α) s = some (.ok a, s) := rfl

@[simp] theorem bind_apply (x : Prog ε σ α) (f : α → Prog ε σ β) (s : σ) :
    (x >>= f) s = (x s).bind fun
      | (.ok a, s') => f a s'
      | (.error e, s') => some (.error e, s') := rfl

@[simp] theorem throw_apply (e : ε) (s : σ) : (throw e : Prog ε σ α) s = some (.error e, s) := rfl

@[simp] theorem tryCatch_apply (x : Prog ε σ α) (handle : ε → Prog ε σ α) (s : σ) :
    (tryCatch x handle) s = (x s).bind fun
      | (.ok a, s') => some (.ok a, s')
      | (.error e, s') => handle e s' := rfl

@[simp] theorem get_apply (s : σ) : (get : Prog ε σ σ) s = some (.ok s, s) := rfl

@[simp] theorem modify_apply (f : σ → σ) (s : σ) : (modify f : Prog ε σ PUnit) s = some (.ok (), f s) := rfl

@[simp] theorem noexcept_apply (x : Prog ε σ α) (s : σ) :
    noexcept x s = (x s).bind fun
      | (.ok a, s') => some (.ok a, s')
      | (.error _, _) => none := rfl

/-- From a state with `P` the program does not end the process: it returns in a state
as `Q` says, or it throws in a state as `R` says. -/
def Triple (P : σ → Prop) (x : Prog ε σ α) (Q : α → σ → Prop) (R : ε → σ → Prop) : Prop :=
  ∀ s, P s → (∃ a s', x s = some (.ok a, s') ∧ Q a s') ∨ ∃ e s', x s = some (.error e, s') ∧ R e s'

section Triples

variable {P P' : σ → Prop} {Q Q' : α → σ → Prop} {R : ε → σ → Prop} {x : Prog ε σ α}

theorem triple_pure {a : α} (h : ∀ s, P s → Q a s) : Triple P (pure a : Prog ε σ α) Q R :=
  fun s hs => .inl ⟨a, s, rfl, h s hs⟩

theorem triple_throw {e : ε} (h : ∀ s, P s → R e s) : Triple P (throw e : Prog ε σ α) Q R :=
  fun s hs => .inr ⟨e, s, rfl, h s hs⟩

theorem triple_modify {f : σ → σ} {Q : PUnit → σ → Prop} (h : ∀ s, P s → Q () (f s)) :
    Triple P (modify f : Prog ε σ PUnit) Q R :=
  fun s hs => .inl ⟨(), f s, rfl, h s hs⟩

theorem triple_weaken (h : Triple P x Q R) (hP : ∀ s, P' s → P s) (hQ : ∀ a s, Q a s → Q' a s) :
    Triple P' x Q' R := by
  intro s hs
  rcases h s (hP s hs) with ⟨a, s', hx, hq⟩ | hr
  · exact .inl ⟨a, s', hx, hQ a s' hq⟩
  · exact .inr hr

theorem triple_fact {p : Prop} (h : p → Triple P x Q R) : Triple (fun s => p ∧ P s) x Q R :=
  fun s hs => h hs.1 s hs.2

theorem triple_bind {f : α → Prog ε σ β} {T : β → σ → Prop} (hx : Triple P x Q R)
    (hf : ∀ a, Triple (Q a) (f a) T R) : Triple P (x >>= f) T R := by
  intro s hs
  rcases hx s hs with ⟨a, s₁, h₁, hs₁⟩ | ⟨e, s₁, h₁, hr⟩
  · rcases hf a s₁ hs₁ with ⟨b, s₂, h₂, hs₂⟩ | ⟨e, s₂, h₂, hr⟩
    · refine .inl ⟨b, s₂, ?_, hs₂⟩
      simp [h₁, h₂]
    · refine .inr ⟨e, s₂, ?_, hr⟩
      simp [h₁, h₂]
  · refine .inr ⟨e, s₁, ?_, hr⟩
    simp [h₁]

/-- What follows a look at the state may depend on it. -/
theorem triple_get {f : σ → Prog ε σ α} (h : ∀ s₀, P s₀ → Triple (fun s => s = s₀) (f s₀) Q R) :
    Triple P (get >>= f) Q R :=
  fun s hs => h s hs s rfl

/-- The loop rule: the invariant is about the part of the list that has been done. -/
theorem triple_forM {I : List β → σ → Prop} {l : List β} {f : β → Prog ε σ PUnit}
    (hf : ∀ done b rest, l = done ++ b :: rest → Triple (I done) (f b) (fun _ => I (done ++ [b])) R) :
    Triple (I []) (l.forM f) (fun _ => I l) R := by
  -- over what is still to be done, for every part that has been
  have hrest : ∀ rest done, l = done ++ rest → Triple (I done) (rest.forM f) (fun _ => I l) R := by
    intro rest
    induction rest with
    | nil =>
      intro done hl
      rw [List.append_nil] at hl
      subst hl
      exact triple_pure fun s hs => hs
    | cons b rest ih =>
      intro done hl
      have hnext := ih (done ++ [b]) (by rw [hl, List.append_assoc]; rfl)
      exact triple_bind (hf done b rest hl) fun _ => hnext
  exact hrest l [] rfl

theorem triple_tryCatch {handle : ε → Prog ε σ α} {R' : ε → σ → Prop} (hx : Triple P x Q R)
    (hh : ∀ e, Triple (R e) (handle e) Q R') : Triple P (tryCatch x handle) Q R' := by
  intro s hs
  rcases hx s hs with ⟨a, s₁, h₁, hq⟩ | ⟨e, s₁, h₁, hr⟩
  · refine .inl ⟨a, s₁, ?_, hq⟩
    simp [h₁]
  · rw [tryCatch_apply, h₁]
    exact hh e s₁ hr

/-- What throws nothing may cross a boundary. -/
theorem triple_noexcept {R' : ε → σ → Prop} (hx : Triple P x Q fun _ _ => False) : Triple P (noexcept x) Q R' := by
  intro s hs
  rcases hx s hs with ⟨a, s₁, h₁, hq⟩ | ⟨e, s₁, h₁, hr⟩
  · refine .inl ⟨a, s₁, ?_, hq⟩
    simp [h₁]
  · exact hr.elim

end Triples

/-- From a state with the invariant the program does not end the process: it returns
in a state with the invariant, or it throws in a state as `R` says. -/
def Keeps (I : σ → Prop) (R : ε → σ → Prop) (x : Prog ε σ α) : Prop :=
  ∀ s, I s → (∃ a s', x s = some (.ok a, s') ∧ I s') ∨ ∃ e s', x s = some (.error e, s') ∧ R e s'

/-- The same of a program that does not throw either. -/
def Quiet (I : σ → Prop) (x : Prog ε σ α) : Prop := ∀ s, I s → ∃ a s', x s = some (.ok a, s') ∧ I s'

variable {I : σ → Prop} {R : ε → σ → Prop} {x : Prog ε σ α}

theorem Quiet.keeps (h : Quiet I x) : Keeps I R x := fun s hs => .inl (h s hs)

theorem quiet_pure (a : α) : Quiet I (pure a : Prog ε σ α) := fun s hs => ⟨a, s, rfl, hs⟩

theorem quiet_get : Quiet I (get : Prog ε σ σ) := fun s hs => ⟨s, s, rfl, hs⟩

theorem quiet_modify {f : σ → σ} (h : ∀ s, I s → I (f s)) : Quiet I (modify f : Prog ε σ PUnit) :=
  fun s hs => ⟨(), f s, rfl, h s hs⟩

theorem keeps_bind {f : α → Prog ε σ β} (hx : Keeps I R x) (hf : ∀ a, Keeps I R (f a)) : Keeps I R (x >>= f) :=
  triple_bind hx hf

theorem quiet_bind {f : α → Prog ε σ β} (hx : Quiet I x) (hf : ∀ a, Quiet I (f a)) : Quiet I (x >>= f) := by
  intro s hs
  obtain ⟨a, s₁, h₁, hs₁⟩ := hx s hs
  obtain ⟨b, s₂, h₂, hs₂⟩ := hf a s₁ hs₁
  refine ⟨b, s₂, ?_, hs₂⟩
  simp [h₁, h₂]

/-- A handler that can deal with all that the program throws. -/
theorem quiet_tryCatch {handle : ε → Prog ε σ α} (hx : Keeps I R x)
    (hh : ∀ e s, R e s → ∃ a s', handle e s = some (.ok a, s') ∧ I s') : Quiet I (tryCatch x handle) := by
  intro s hs
  rcases hx s hs with ⟨a, s₁, h₁, hs₁⟩ | ⟨e, s₁, h₁, hr⟩
  · refine ⟨a, s₁, ?_, hs₁⟩
    simp [h₁]
  · obtain ⟨a, s₂, h₂, hs₂⟩ := hh e s₁ hr
    refine ⟨a, s₂, ?_, hs₂⟩
    simp [h₁, h₂]

/-- What does not throw may cross a boundary. -/
theorem quiet_noexcept (h : Quiet I x) : Quiet I (noexcept x) := by
  intro s hs
  obtain ⟨a, s₁, h₁, hs₁⟩ := h s hs
  refine ⟨a, s₁, ?_, hs₁⟩
  simp [h₁]

theorem keeps_forM {l : List β} {f : β → Prog ε σ PUnit} (hf : ∀ b, Keeps I R (f b)) : Keeps I R (l.forM f) :=
  triple_forM (I := fun _ => I) fun _ b _ _ => hf b

theorem quiet_forM {l : List β} {f : β → Prog ε σ PUnit} (hf : ∀ b, Quiet I (f b)) : Quiet I (l.forM f) := by
  induction l with
  | nil => exact quiet_pure _
  | cons b l ih => exact quiet_bind (hf b) fun _ => ih

end Prog

end Exceptions
