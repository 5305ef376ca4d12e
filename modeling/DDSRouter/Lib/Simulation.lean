import DDSRouter.Lib.Runs

/-!
# Simulations between step functions

A step of one system is matched by a list of actions of another, which may be
empty. The matching actions of a whole run are its trace, and the trace is again
a run.
-/
namespace Runs

variable {σ α τ β : Type}

/-- The actions of the other system that match a run, up to the first action that
cannot be taken. -/
def trace (step : σ → α → Option σ) (label : σ → α → List β) : σ → List α → List β
  | _, [] => []
  | s, a :: as =>
    match step s a with
    | some s' => label s a ++ trace step label s' as
    | none => []

variable {step : σ → α → Option σ} {step' : τ → β → Option τ} {label : σ → α → List β}

theorem trace_cons {s s' : σ} {a : α} (h : step s a = some s') (as : List α) :
    trace step label s (a :: as) = label s a ++ trace step label s' as := by
  simp [trace, h]

theorem run_append (s : σ) (as bs : List α) : run step s (as ++ bs) = (run step s as).bind fun s' => run step s' bs := by
  induction as generalizing s with
  | nil => rfl
  | cons a as ih =>
    rw [List.cons_append, run_cons, run_cons, Option.bind_assoc]
    congr 1
    funext s'
    exact ih s'

/-- What matches the parts of a run matches the whole. -/
theorem trace_append {s s' : σ} {as : List α} (h : run step s as = some s') (bs : List α) :
    trace step label s (as ++ bs) = trace step label s as ++ trace step label s' bs := by
  induction as generalizing s with
  | nil =>
    cases h
    rfl
  | cons a as ih =>
    obtain ⟨s₁, hs, hr⟩ := run_cons_some.mp h
    rw [List.cons_append, trace_cons hs, trace_cons hs, ih hr, List.append_assoc]

/-- A relation that every step keeps, with the matching actions on the other side, is
kept by every run. -/
theorem run_simulates {R : σ → τ → Prop}
    (hstep : ∀ s t a s', R s t → step s a = some s' → ∃ t', run step' t (label s a) = some t' ∧ R s' t')
    {s s' : σ} {t : τ} {as : List α} (hR : R s t) (hr : run step s as = some s') :
    ∃ t', run step' t (trace step label s as) = some t' ∧ R s' t' := by
  induction as generalizing s t with
  | nil =>
    cases hr
    exact ⟨t, rfl, hR⟩
  | cons a as ih =>
    obtain ⟨s₁, hs, hr⟩ := run_cons_some.mp hr
    obtain ⟨t₁, ht, hR₁⟩ := hstep s t a s₁ hR hs
    obtain ⟨t', ht', hR'⟩ := ih hR₁ hr
    refine ⟨t', ?_, hR'⟩
    rw [trace_cons hs, run_append, ht, Option.bind_some, ht']

/-- The same for a function of the state. -/
theorem run_projects {f : σ → τ} (hstep : ∀ s a s', step s a = some s' → run step' (f s) (label s a) = some (f s'))
    {s s' : σ} {as : List α} (hr : run step s as = some s') :
    run step' (f s) (trace step label s as) = some (f s') := by
  obtain ⟨t', ht, rfl⟩ := run_simulates (R := fun s t => t = f s)
    (fun s t a s' hR hs => ⟨f s', hR ▸ hstep s a s' hs, rfl⟩) rfl hr
  exact ht

/-- An action of the trace matches an action of the run, in the state it was taken in. -/
theorem mem_trace {s s' : σ} {as : List α} {b : β} (hr : run step s as = some s') :
    b ∈ trace step label s as ↔
      ∃ past a rest t, as = past ++ a :: rest ∧ run step s past = some t ∧ b ∈ label t a := by
  induction as generalizing s with
  | nil => simp [trace]
  | cons a as ih =>
    obtain ⟨s₁, hs, hr⟩ := run_cons_some.mp hr
    rw [trace_cons hs, List.mem_append, ih hr]
    constructor
    · rintro (hb | ⟨past, a', rest, t, rfl, ht, hb⟩)
      · exact ⟨[], a, as, s, rfl, rfl, hb⟩
      · refine ⟨a :: past, a', rest, t, rfl, ?_, hb⟩
        rw [run_cons, hs, Option.bind_some, ht]
    · rintro ⟨past, a', rest, t, heq, ht, hb⟩
      cases past with
      | nil =>
        simp only [List.nil_append, List.cons.injEq] at heq
        obtain ⟨rfl, rfl⟩ := heq
        cases ht
        exact .inl hb
      | cons a₁ past =>
        simp only [List.cons_append, List.cons.injEq] at heq
        obtain ⟨rfl, rfl⟩ := heq
        rw [run_cons, hs, Option.bind_some] at ht
        exact .inr ⟨past, a', rest, t, rfl, ht, hb⟩

/-- An invariant that also speaks about the run so far and about what matches it. -/
theorem run_traced {s₀ : σ} {J : List β → σ → Prop}
    (hstep : ∀ past s a s', run step s₀ past = some s → J (trace step label s₀ past) s → step s a = some s' →
      J (trace step label s₀ past ++ label s a) s')
    {s : σ} {as : List α} (hJ : J [] s₀) (hr : run step s₀ as = some s) : J (trace step label s₀ as) s := by
  have hgen : ∀ past t as, run step s₀ past = some t → J (trace step label s₀ past) t → run step t as = some s →
      J (trace step label s₀ (past ++ as)) s := by
    intro past t as hpast hJ hr
    induction as generalizing past t with
    | nil =>
      cases hr
      simpa using hJ
    | cons a as ih =>
      obtain ⟨t', ht, hr⟩ := run_cons_some.mp hr
      have hpast' : run step s₀ (past ++ [a]) = some t' := by rw [run_concat hpast, ht]
      have hlast : trace step label s₀ (past ++ [a]) = trace step label s₀ past ++ label t a := by
        rw [trace_append hpast, trace_cons ht, trace, List.append_nil]
      have := ih (past ++ [a]) t' hpast' (hlast ▸ hstep past t a t' hpast hJ ht) hr
      simpa using this
  exact hgen [] s₀ as rfl hJ hr

theorem trace_congr {label' : σ → α → List β} (h : ∀ s a s', step s a = some s' → label s a = label' s a) (s : σ)
    (as : List α) : trace step label s as = trace step label' s as := by
  induction as generalizing s with
  | nil => rfl
  | cons a as ih =>
    cases hs : step s a with
    | none => simp [trace, hs]
    | some s' => rw [trace_cons hs, trace_cons hs, h s a s' hs, ih]

/-! ### Traces of traces -/

theorem trace_filterMap {γ : Type} (f : β → Option γ) {s s' : σ} {as : List α} (hr : run step s as = some s') :
    trace step (fun s a => (label s a).filterMap f) s as = (trace step label s as).filterMap f := by
  induction as generalizing s with
  | nil => rfl
  | cons a as ih =>
    obtain ⟨s₁, hs, hr⟩ := run_cons_some.mp hr
    rw [trace_cons hs, trace_cons hs, ih hr, List.filterMap_append]

/-- What matches a run through a second system. -/
theorem trace_trace {γ : Type} {f : σ → τ} {label' : τ → β → List γ}
    (hstep : ∀ s a s', step s a = some s' → run step' (f s) (label s a) = some (f s'))
    {s s' : σ} {as : List α} (hr : run step s as = some s') :
    trace step' label' (f s) (trace step label s as) =
      trace step (fun s a => trace step' label' (f s) (label s a)) s as := by
  induction as generalizing s with
  | nil => rfl
  | cons a as ih =>
    obtain ⟨s₁, hs, hr⟩ := run_cons_some.mp hr
    rw [trace_cons hs, trace_cons hs, trace_append (hstep s a s₁ hs), ih hr]

theorem mem_trace_append {label₁ label₂ : σ → α → List β} {s s' : σ} {as : List α} {b : β}
    (hr : run step s as = some s') :
    b ∈ trace step (fun s a => label₁ s a ++ label₂ s a) s as ↔
      b ∈ trace step label₁ s as ∨ b ∈ trace step label₂ s as := by
  induction as generalizing s with
  | nil => simp [trace]
  | cons a as ih =>
    obtain ⟨s₁, hs, hr⟩ := run_cons_some.mp hr
    simp only [trace_cons hs, List.mem_append, ih hr]
    exact or_or_or_comm

/-- Where the first kind of actions has none with the property, the first one with it
is of the second kind. -/
theorem find?_trace_append {label₁ label₂ : σ → α → List β} {p : β → Bool} {s s' : σ} {as : List α}
    (hr : run step s as = some s') (hn : ∀ b ∈ trace step label₁ s as, p b = false) :
    (trace step (fun s a => label₁ s a ++ label₂ s a) s as).find? p = (trace step label₂ s as).find? p := by
  induction as generalizing s with
  | nil => rfl
  | cons a as ih =>
    obtain ⟨s₁, hs, hr⟩ := run_cons_some.mp hr
    rw [trace_cons hs, List.forall_mem_append] at hn
    have hnone : (label₁ s a).find? p = none := by
      rw [List.find?_eq_none]
      exact fun b hb => Bool.not_eq_true _ ▸ hn.1 b hb
    rw [trace_cons hs, trace_cons hs, List.find?_append, List.find?_append, List.find?_append, hnone, Option.none_or,
      ih hr hn.2]

end Runs
