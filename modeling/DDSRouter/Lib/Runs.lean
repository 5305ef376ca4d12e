import Mathlib.Tactic.Common

/-!
# Runs of a step function

A system is a partial step function on states: `step s a` is the state after
action `a`, or `none` when `a` cannot be taken in `s`. A run is a list of
actions. Nothing is assumed about the state or the action type, so any
interleaving of several parties is a run of the system that has the parties'
steps as its actions.
-/
namespace Runs

variable {σ α : Type}

/-- The state a list of actions leads to, if every action can be taken. -/
def run (step : σ → α → Option σ) : σ → List α → Option σ
  | s, [] => some s
  | s, a :: as => (step s a).bind fun s' => run step s' as

/-- Every step that the run takes meets the condition `C`. -/
def Along (step : σ → α → Option σ) (C : σ → α → Prop) : σ → List α → Prop
  | _, [] => True
  | s, a :: as => ∀ s', step s a = some s' → C s a ∧ Along step C s' as

/-- Every state of the run has the property `Q`, the first and the last included. -/
def Visits (step : σ → α → Option σ) (Q : σ → Prop) : σ → List α → Prop
  | s, [] => Q s
  | s, a :: as => Q s ∧ ∀ s', step s a = some s' → Visits step Q s' as

/-- Every step that the run comes to meets the condition `C`, also one that cannot
be taken. -/
def Meets (step : σ → α → Option σ) (C : σ → α → Prop) : σ → List α → Prop
  | _, [] => True
  | s, a :: as => C s a ∧ ∀ s', step s a = some s' → Meets step C s' as

variable {step : σ → α → Option σ} {C : σ → α → Prop} {I Q : σ → Prop}

theorem along_cons {s s' : σ} {a : α} {as : List α} (h : step s a = some s') :
    Along step C s (a :: as) ↔ C s a ∧ Along step C s' as := by
  constructor
  · exact fun hC => hC s' h
  · intro hC s₂ h₂
    rw [h, Option.some.injEq] at h₂
    exact h₂ ▸ hC

theorem visits_cons {s s' : σ} {a : α} {as : List α} (h : step s a = some s') :
    Visits step Q s (a :: as) ↔ Q s ∧ Visits step Q s' as := by
  constructor
  · exact fun hQ => ⟨hQ.1, hQ.2 s' h⟩
  · rintro ⟨hq, hQ⟩
    refine ⟨hq, fun s₂ h₂ => ?_⟩
    rw [h, Option.some.injEq] at h₂
    exact h₂ ▸ hQ

theorem along_and {D : σ → α → Prop} {s : σ} {as : List α} (hC : Along step C s as) (hD : Along step D s as) :
    Along step (fun s a => C s a ∧ D s a) s as := by
  induction as generalizing s with
  | nil => trivial
  | cons a as ih =>
    intro s' hs
    exact ⟨⟨(hC s' hs).1, (hD s' hs).1⟩, ih (hC s' hs).2 (hD s' hs).2⟩

/-- A condition on steps that can be decided can be decided along a run. -/
instance decidableAlong [∀ s a, Decidable (C s a)] : ∀ s as, Decidable (Along step C s as)
  | _, [] => .isTrue trivial
  | s, a :: as =>
    match h : step s a with
    | none => .isTrue fun s' hs => by simp [h] at hs
    | some s' =>
      have := decidableAlong s' as
      decidable_of_iff _ (along_cons h).symm

instance decidableVisits [∀ s, Decidable (Q s)] : ∀ s as, Decidable (Visits step Q s as)
  | s, [] => inferInstanceAs (Decidable (Q s))
  | s, a :: as =>
    match h : step s a with
    | none => decidable_of_iff (Q s) ⟨fun hq => ⟨hq, fun s' hs => by simp [h] at hs⟩, fun hQ => hQ.1⟩
    | some s' =>
      have := decidableVisits s' as
      decidable_of_iff _ (visits_cons h).symm

@[simp] theorem run_nil (s : σ) : run step s [] = some s := rfl

theorem run_cons (s : σ) (a : α) (as : List α) :
    run step s (a :: as) = (step s a).bind fun s' => run step s' as := rfl

theorem run_cons_some {s t : σ} {a : α} {as : List α} :
    run step s (a :: as) = some t ↔ ∃ s', step s a = some s' ∧ run step s' as = some t := by
  rw [run_cons, Option.bind_eq_some_iff]

/-- One more action at the end of a run. -/
theorem run_concat {s t : σ} {as : List α} {a : α} (h : run step s as = some t) :
    run step s (as ++ [a]) = step t a := by
  induction as generalizing s with
  | nil =>
    cases h
    rw [List.nil_append, run_cons]
    exact Option.bind_fun_some _
  | cons b as ih =>
    obtain ⟨s', hs, hr⟩ := run_cons_some.mp h
    rw [List.cons_append, run_cons, hs, Option.bind_some, ih hr]

theorem along_concat {s t : σ} {as : List α} {a : α} (h : Along step C s as) (hr : run step s as = some t)
    (ha : C t a) : Along step C s (as ++ [a]) := by
  induction as generalizing s with
  | nil =>
    cases hr
    exact fun s' hs => ⟨ha, trivial⟩
  | cons b as ih =>
    obtain ⟨s', hs, hr⟩ := run_cons_some.mp hr
    rw [List.cons_append, along_cons hs]
    exact ⟨(h s' hs).1, ih (h s' hs).2 hr⟩

theorem visits_first {s : σ} {as : List α} (h : Visits step Q s as) : Q s := by
  cases as with
  | nil => exact h
  | cons a as => exact h.1

theorem visits_last {s t : σ} {as : List α} (h : Visits step Q s as) (hr : run step s as = some t) : Q t := by
  induction as generalizing s with
  | nil =>
    cases hr
    exact h
  | cons a as ih =>
    obtain ⟨s', hs, hr⟩ := run_cons_some.mp hr
    exact ih (h.2 s' hs) hr

theorem visits_concat {s t t' : σ} {as : List α} {a : α} (hr : run step s as = some t) (ha : step t a = some t') :
    Visits step Q s (as ++ [a]) ↔ Visits step Q s as ∧ Q t' := by
  induction as generalizing s with
  | nil =>
    cases hr
    exact visits_cons ha
  | cons b as ih =>
    obtain ⟨s', hs, hr⟩ := run_cons_some.mp hr
    rw [List.cons_append, visits_cons hs, visits_cons hs, ih hr, and_assoc]

/-- The invariant rule under a condition on the steps. -/
theorem run_invariant_of_along
    (hstep : ∀ s a s', C s a → I s → step s a = some s' → I s')
    {s t : σ} {as : List α} (hI : I s) (hC : Along step C s as)
    (hr : run step s as = some t) : I t := by
  induction as generalizing s with
  | nil =>
    cases hr
    exact hI
  | cons a as ih =>
    obtain ⟨s', hs, hr⟩ := run_cons_some.mp hr
    obtain ⟨hca, hC⟩ := hC s' hs
    exact ih (hstep s a s' hca hI hs) hC hr

/-- The same, where the state after the step is known to have a property too. -/
theorem run_invariant_of_visits
    (hstep : ∀ s a s', C s a → Q s' → I s → step s a = some s' → I s')
    {s t : σ} {as : List α} (hI : I s) (hC : Along step C s as) (hQ : Visits step Q s as)
    (hr : run step s as = some t) : I t := by
  induction as generalizing s with
  | nil =>
    cases hr
    exact hI
  | cons a as ih =>
    obtain ⟨s', hs, hr⟩ := run_cons_some.mp hr
    obtain ⟨hca, hC⟩ := hC s' hs
    have hQ' := hQ.2 s' hs
    exact ih (hstep s a s' hca (visits_first hQ') hI hs) hC hQ' hr

/-- The invariant rule: what every step keeps, every run keeps. -/
theorem run_invariant (hstep : ∀ s a s', I s → step s a = some s' → I s')
    {s t : σ} {as : List α} (hI : I s) (hr : run step s as = some t) : I t := by
  induction as generalizing s with
  | nil =>
    cases hr
    exact hI
  | cons a as ih =>
    obtain ⟨s', hs, hr⟩ := run_cons_some.mp hr
    exact ih (hstep s a s' hI hs) hr

/-- An invariant that also speaks about the actions taken so far. -/
theorem run_history {J : List α → σ → Prop} (hstep : ∀ past s a s', J past s → step s a = some s' → J (past ++ [a]) s')
    {past : List α} {s t : σ} {as : List α} (hJ : J past s) (hr : run step s as = some t) : J (past ++ as) t := by
  induction as generalizing past s with
  | nil =>
    cases hr
    simpa using hJ
  | cons a as ih =>
    obtain ⟨s', hs, hr⟩ := run_cons_some.mp hr
    have h := ih (hstep past s a s' hJ hs) hr
    simpa using h

/-- A run whose steps meet `C` has, in all its states, what the invariant carries. -/
theorem visits_of_along (hQ : ∀ s, I s → Q s)
    (hkeep : ∀ s a s', C s a → I s → step s a = some s' → I s')
    {s : σ} (hI : I s) {as : List α} (hC : Along step C s as) : Visits step Q s as := by
  induction as generalizing s with
  | nil => exact hQ s hI
  | cons a as ih =>
    refine ⟨hQ s hI, fun s' hs => ?_⟩
    obtain ⟨hca, hC⟩ := hC s' hs
    exact ih (hkeep s a s' hca hI hs) hC

/-- Where the invariant `I` carries `Q`, is kept by the steps that meet `C`, and
`Q` is lost in every other step, a run has `Q` in all its states exactly when all
its steps meet `C`. -/
theorem visits_iff_along (hQ : ∀ s, I s → Q s)
    (hkeep : ∀ s a s', C s a → I s → step s a = some s' → I s')
    (hlose : ∀ s a s', I s → step s a = some s' → Q s' → C s a)
    {s : σ} (hI : I s) (as : List α) : Visits step Q s as ↔ Along step C s as := by
  refine ⟨fun hv => ?_, visits_of_along hQ hkeep hI⟩
  induction as generalizing s with
  | nil => trivial
  | cons a as ih =>
    intro s' hs
    have hca := hlose s a s' hI hs (visits_first (hv.2 s' hs))
    exact ⟨hca, ih (hkeep s a s' hca hI hs) (hv.2 s' hs)⟩

/-- Where the steps that can be taken are those that meet `C`, a run comes to its end
exactly when all its steps meet `C`. -/
theorem run_iff_meets (hstep : ∀ s a, I s → ((∃ s', step s a = some s') ↔ C s a))
    (hkeep : ∀ s a s', I s → step s a = some s' → I s') {s : σ} (hI : I s) (as : List α) :
    (∃ t, run step s as = some t ∧ I t) ↔ Meets step C s as := by
  induction as generalizing s with
  | nil => exact ⟨fun _ => trivial, fun _ => ⟨s, rfl, hI⟩⟩
  | cons a as ih =>
    constructor
    · rintro ⟨t, hr, ht⟩
      obtain ⟨s', hs, hr⟩ := run_cons_some.mp hr
      refine ⟨(hstep s a hI).mp ⟨s', hs⟩, fun s₂ hs₂ => ?_⟩
      rw [hs, Option.some.injEq] at hs₂
      subst hs₂
      exact (ih (hkeep s a s' hI hs)).mp ⟨t, hr, ht⟩
    · rintro ⟨hC, hrest⟩
      obtain ⟨s', hs⟩ := (hstep s a hI).mpr hC
      obtain ⟨t, hr, ht⟩ := (ih (hkeep s a s' hI hs)).mpr (hrest s' hs)
      exact ⟨t, run_cons_some.mpr ⟨s', hs, hr⟩, ht⟩

end Runs
