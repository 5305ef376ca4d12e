import DDSRouter.RouterTopics

/-!
# Reloads that change nothing

`reload_configuration` returns `RETCODE_NO_DATA` when the new lists are equal to
the current ones, and lists are compared by the texts of their filters. This is
right as long as the text of a filter decides its fields. The text does not show
the value of the key, and it puts name and type one after the other with a
separator that may occur in both.
-/
namespace DDSRouter

namespace WildcardDdsFilterTopic

/-- Same name, and same type and key wherever they are set. -/
def SameFields (u : FuzzyUtils) (f g : WildcardDdsFilterTopic) : Prop :=
  f.topicName = g.topicName ∧ u.get? f.typeName = u.get? g.typeName ∧ u.get? f.keyed = u.get? g.keyed

/-- A filter is a box: one condition for each of its fields. -/
theorem matchesTopic_iff {u : CppUtils} {f : WildcardDdsFilterTopic} {t : DdsTopic} :
    f.matchesTopic u t = true ↔
      (∀ k ∈ u.get? f.keyed, k = t.keyed) ∧
        (∀ y ∈ u.get? f.typeName, u.matchPattern y t.typeName = true) ∧
        u.matchPattern f.topicName t.topicName = true := by
  unfold matchesTopic FuzzyUtils.get?
  cases hk : u.isSetValue f.keyed with
  | true =>
    cases hy : u.isSetValue f.typeName with
    | true => by_cases hv : f.keyed.value = t.keyed <;> simp [hv]
    | false => by_cases hv : f.keyed.value = t.keyed <;> simp [hv]
  | false =>
    cases hy : u.isSetValue f.typeName with
    | true => simp
    | false => simp

theorem SameFields.matchesTopic {u : CppUtils} {f g : WildcardDdsFilterTopic} (h : SameFields u.toFuzzyUtils f g)
    (t : DdsTopic) : f.matchesTopic u t = g.matchesTopic u t := by
  rw [Bool.eq_iff_iff, matchesTopic_iff, matchesTopic_iff, h.1, h.2.1, h.2.2]

/-- Conditions of one field that hold for the same values are the same. -/
theorem eq_of_forall_mem_eq_iff {α : Type} {a b : Option α} (hne : ∀ y : α, ∃ y', y' ≠ y)
    (h : ∀ x, (∀ y ∈ a, y = x) ↔ ∀ y ∈ b, y = x) : a = b := by
  cases a with
  | none =>
    cases b with
    | none => rfl
    | some y =>
      obtain ⟨y', hy'⟩ := hne y
      have := (h y').mp (by simp)
      exact absurd (this y rfl).symm hy'
  | some x =>
    have hx := (h x).mp (by simp)
    cases b with
    | none =>
      obtain ⟨x', hx'⟩ := hne x
      have := (h x').mpr (by simp)
      exact absurd (this x rfl).symm hx'
    | some y => rw [hx y rfl]

/-- Where patterns match their own text only, filters that match the same topics
have the same fields. -/
theorem sameFields_of_matchesTopic {u : CppUtils} {f g : WildcardDdsFilterTopic}
    (hm : ∀ p s, u.matchPattern p s = true ↔ p = s)
    (h : ∀ t, f.matchesTopic u t = g.matchesTopic u t) : SameFields u.toFuzzyUtils f g := by
  have hiff : ∀ t, f.matchesTopic u t = true ↔ g.matchesTopic u t = true := fun t => by rw [h t]
  simp only [matchesTopic_iff, hm] at hiff
  -- a topic that `f` matches, hence `g` too; the fields are varied one at a time from it
  let name := f.topicName
  let type := (u.get? f.typeName).getD ""
  let key := (u.get? f.keyed).getD false
  have hown : ∀ {α : Type} (o : Option α) (d : α), ∀ y ∈ o, y = o.getD d := by
    intro α o d y hy
    cases hy
    rfl
  have hf : (∀ k ∈ u.get? f.keyed, k = key) ∧ (∀ y ∈ u.get? f.typeName, y = type) ∧ f.topicName = name :=
    ⟨hown _ _, hown _ _, rfl⟩
  have hg := (hiff { topicName := name, typeName := type, keyed := key }).mp hf
  refine ⟨hg.2.2.symm, ?_, ?_⟩
  · apply eq_of_forall_mem_eq_iff
    · intro y
      refine ⟨y ++ "x", fun heq => ?_⟩
      have := congrArg String.length heq
      simp at this
    · intro x
      have hx := hiff { topicName := name, typeName := x, keyed := key }
      exact ⟨fun ha => (hx.mp ⟨hf.1, ha, hf.2.2⟩).2.1, fun hb => (hx.mpr ⟨hg.1, hb, hg.2.2⟩).2.1⟩
  · apply eq_of_forall_mem_eq_iff
    · intro k
      exact ⟨!k, by simp⟩
    · intro x
      have hx := hiff { topicName := name, typeName := type, keyed := x }
      exact ⟨fun ha => (hx.mp ⟨ha, hf.2⟩).1, fun hb => (hx.mpr ⟨hb, hg.2⟩).1⟩

end WildcardDdsFilterTopic

namespace Router

open WildcardDdsFilterTopic

/-- Every filter of the list is one of `F`. -/
def ListsOf (F : WildcardDdsFilterTopic → Prop) (l : AllowedTopicList) : Prop :=
  (∀ f ∈ l.allowlist, F f) ∧ ∀ f ∈ l.blocklist, F f

theorem reload_noData {env : Env} {s s' : State} {c : ReloadConfiguration}
    (h : reloadConfiguration env s c = some (.noData, s')) :
    (AllowedTopicList.create c.allowlist c.blocklist).equal env.utils.toFuzzyUtils s.allowedTopics = true := by
  obtain ⟨hcode, -⟩ | ⟨-, -, heq, -⟩ | ⟨hcode, -⟩ := reload_cases h
  · cases hcode
  · exact heq
  · cases hcode

/-- Over lists of filters from `F`, a reload that returns `RETCODE_NO_DATA` would
have changed nothing, whatever patterns match, exactly when no two filters of
`F` have the same text and different fields. -/
theorem reload_noData_faithful_iff (v : FuzzyUtils) (F : WildcardDdsFilterTopic → Prop) :
    (∀ (matchPattern : String → String → Bool) (ids : List ParticipantId) (s s' : State)
      (c : ReloadConfiguration), ListsOf F s.allowedTopics →
      ListsOf F (AllowedTopicList.create c.allowlist c.blocklist) →
      reloadConfiguration ⟨⟨v, matchPattern⟩, ids⟩ s c = some (.noData, s') →
      ∀ t, (AllowedTopicList.create c.allowlist c.blocklist).isTopicAllowed ⟨v, matchPattern⟩ t =
        s.allowedTopics.isTopicAllowed ⟨v, matchPattern⟩ t) ↔
    ∀ f g, F f → F g → text v f = text v g → SameFields v f g := by
  constructor
  · intro h f g hf hg htext
    let u : CppUtils := ⟨v, fun p s => p = s⟩
    have hmatch : ∀ t, f.matchesTopic u t = g.matchesTopic u t := by
      intro t
      have hequal : (AllowedTopicList.create [f] []).equal v ⟨[g], []⟩ = true := by
        simp [AllowedTopicList.equal, AllowedTopicList.areSetOfPtrEqual, WildcardDdsFilterTopic.equal, htext]
      have hallow := h (fun p s => p = s) [] { enabled := true, allowedTopics := ⟨[g], []⟩ }
        { enabled := true, allowedTopics := ⟨[g], []⟩ } { allowlist := [f] }
        (by simp [ListsOf, hg]) (by simp [ListsOf, hf])
        (by simp [reloadConfiguration, ReloadConfiguration.isValid, newBuiltinTopics, OrdMap.keys,
              OrdMap.empty, hequal]) t
      simpa [AllowedTopicList.isTopicAllowed] using hallow
    exact sameFields_of_matchesTopic (u := u) (by simp [u]) hmatch
  · intro h matchPattern ids s s' c hs hc hr t
    have hm : ∀ f g, F f → F g → text v f = text v g →
        f.matchesTopic ⟨v, matchPattern⟩ t = g.matchesTopic ⟨v, matchPattern⟩ t :=
      fun f g hf hg htext => SameFields.matchesTopic (h f g hf hg htext) t
    apply AllowedTopicList.isTopicAllowed_congr (reload_noData hr)
    · intro f hf g hg
      exact hm f g (hc.1 f hf) (hs.1 g hg)
    · intro f hf g hg
      exact hm f g (hc.2 f hf) (hs.2 g hg)

/-! A filter that asks for a key and one that asks for none, of the same name. -/

def filterKeyed (keyed : Bool) : WildcardDdsFilterTopic :=
  { topicName := "chat", typeName := ⟨"", 0⟩, keyed := ⟨keyed, 1⟩ }

theorem reload_noData_hides_key :
    ¬ ∀ (env : Env) (s s' : State) (c : ReloadConfiguration),
      reloadConfiguration env s c = some (.noData, s') →
        ∀ t, (AllowedTopicList.create c.allowlist c.blocklist).isTopicAllowed env.utils t =
          s.allowedTopics.isTopicAllowed env.utils t := by
  intro h
  have hr := h plainEnv { enabled := true, allowedTopics := ⟨[filterKeyed true], []⟩ }
    { enabled := true, allowedTopics := ⟨[filterKeyed true], []⟩ } { allowlist := [filterKeyed false] } rfl chat
  exact absurd hr (by decide)

end Router

end DDSRouter
