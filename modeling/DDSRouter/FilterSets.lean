import DDSRouter.YamlVersions
import Mathlib.Data.List.Perm.Basic

/-!
# Lists of filters in a configuration

A list of filters is read into a set that is ordered by the texts that the
filters print, and of those that print alike the first is kept. What a filter
matches is decided on its fields: the text leaves out the value of the key, and
a separator in a name may stand for the one between name and type.
-/
namespace DDSRouter.Configuration

open WeakOrder YamlReader Documents

variable {env : Libraries} {matchPattern : String → String → Bool}

/-- The functions of `cpp_utils` with which filters are read and matched. -/
def Libraries.cppUtils (env : Libraries) (matchPattern : String → String → Bool) : CppUtils :=
  { env.fuzzy with matchPattern := matchPattern }

/-- In every order of the entries the filters that are read match a topic iff one
of the entries does. -/
def KeepsMeaning (env : Libraries) (matchPattern : String → String → Bool) (elements : List Yaml) : Prop :=
  ∀ elements', elements'.Perm elements → ∀ yml tag, getValueInTag yml tag = .ok (.sequence elements') →
    ∃ fs, getFilters env yml tag = .ok fs ∧ ∀ t : DdsTopic,
      (∃ f ∈ fs, f.matchesTopic (env.cppUtils matchPattern) t = true) ↔
        ∃ e ∈ elements, ∃ f, getWildcardDdsFilterTopic env e = .ok f ∧
          f.matchesTopic (env.cppUtils matchPattern) t = true

/-- A topic that is matched at all is matched by all the filters that print one
and the same text. -/
def PrintsSettle (env : Libraries) (matchPattern : String → String → Bool) (l : List WildcardDdsFilterTopic) : Prop :=
  ∀ t : DdsTopic, (∃ f ∈ l, f.matchesTopic (env.cppUtils matchPattern) t = true) →
    ∃ g ∈ l, ∀ f ∈ l, f.text env.fuzzy = g.text env.fuzzy → f.matchesTopic (env.cppUtils matchPattern) t = true

theorem same_iff_text {u : FuzzyUtils} {f g : WildcardDdsFilterTopic} :
    @same _ (filterOrder u) f g = true ↔ g.text u = f.text u := by
  constructor
  · exact text_of_same
  · intro h
    let _ := filterOrder u
    rw [same_iff]
    simp only [lt, decide_eq_false_iff_not, h, lt_irrefl, not_false_eq_true, and_self]

/-- The filters that the set of a list keeps. -/
def keptFilters (u : FuzzyUtils) (l : List WildcardDdsFilterTopic) : List WildcardDdsFilterTopic :=
  letI := filterOrder u
  (OrdMap.ofKeys l).keys

theorem mem_of_mem_keptFilters {u : FuzzyUtils} {l : List WildcardDdsFilterTopic} {f : WildcardDdsFilterTopic}
    (h : f ∈ keptFilters u l) : f ∈ l := by
  let _ := filterOrder u
  exact OrdMap.mem_of_mem_ofKeys h

theorem keptFilters_meet_iff {u : FuzzyUtils} {l : List WildcardDdsFilterTopic} {p : WildcardDdsFilterTopic → Prop} :
    (∀ l', l'.Perm l → ∃ f ∈ keptFilters u l', p f) ↔ ∃ g ∈ l, ∀ f ∈ l, f.text u = g.text u → p f := by
  let _ := filterOrder u
  simp only [← same_iff_text (u := u)]
  exact OrdMap.ofKeys_perm_meets_iff

/-- The set that a sequence of entries is read into. -/
theorem getFilters_of_read {elements : List Yaml} {l : List WildcardDdsFilterTopic}
    (hl : elements.mapM (getWildcardDdsFilterTopic env) = .ok l) {yml : Yaml} {tag : String}
    (h : getValueInTag yml tag = .ok (.sequence elements)) :
    getFilters env yml tag = .ok (keptFilters env.fuzzy l) := by
  have hlist : getIn yml tag (getList (getWildcardDdsFilterTopic env)) = .ok l := by
    rw [getIn, h]
    simp only [bind, Except.bind, getList, hl]
    rfl
  simp only [getFilters, getSet, hlist]
  rfl

/-- The reader takes the entries one by one, in their order. -/
theorem read_perm {elements elements' : List Yaml} {l : List WildcardDdsFilterTopic}
    (hl : elements.mapM (getWildcardDdsFilterTopic env) = .ok l) (h : elements'.Perm elements) :
    ∃ l', elements'.mapM (getWildcardDdsFilterTopic env) = .ok l' ∧ l'.Perm l := by
  obtain ⟨l', hread, hperm⟩ := List.perm_comp_forall₂ h (mapM_eq_ok_iff.mp hl)
  exact ⟨l', mapM_eq_ok_iff.mpr hread, hperm⟩

theorem exists_read_perm {elements : List Yaml} {l l' : List WildcardDdsFilterTopic}
    (hl : elements.mapM (getWildcardDdsFilterTopic env) = .ok l) (h : l'.Perm l) :
    ∃ elements' : List Yaml, elements'.Perm elements ∧ elements'.mapM (getWildcardDdsFilterTopic env) = .ok l' := by
  have hcomp : Relation.Comp (List.Forall₂ fun e f => getWildcardDdsFilterTopic env e = .ok f) List.Perm elements l' :=
    ⟨l, mapM_eq_ok_iff.mp hl, h.symm⟩
  rw [List.forall₂_comp_perm_eq_perm_comp_forall₂] at hcomp
  obtain ⟨elements', hperm, hread⟩ := hcomp
  exact ⟨elements', hperm.symm, mapM_eq_ok_iff.mpr hread⟩

/-- Some entry matches iff some filter that was read does. -/
theorem exists_entry_iff {elements : List Yaml} {l : List WildcardDdsFilterTopic}
    (hl : elements.mapM (getWildcardDdsFilterTopic env) = .ok l) {p : WildcardDdsFilterTopic → Prop} :
    (∃ e ∈ elements, ∃ f, getWildcardDdsFilterTopic env e = .ok f ∧ p f) ↔ ∃ f ∈ l, p f := by
  constructor
  · rintro ⟨e, he, f, hf, hp⟩
    obtain ⟨f', hf', hread⟩ := exists_read_of_mem hl he
    rw [hf, Except.ok.injEq] at hread
    exact ⟨f', hf', hread ▸ hp⟩
  · rintro ⟨f, hf, hp⟩
    obtain ⟨e, he, hread⟩ := exists_of_mem_read hl hf
    exact ⟨e, he, f, hread, hp⟩

/-- A list of filters keeps its meaning iff each topic that it matches is settled
by the texts of its filters. -/
theorem keepsMeaning_iff (env : Libraries) (matchPattern : String → String → Bool) (elements : List Yaml)
    (l : List WildcardDdsFilterTopic)
    (h : getList (getWildcardDdsFilterTopic env) (.sequence elements) = .ok l) :
    KeepsMeaning env matchPattern elements ↔ PrintsSettle env matchPattern l := by
  have hl : elements.mapM (getWildcardDdsFilterTopic env) = .ok l := mapError_eq_ok h
  constructor
  · intro hkeeps t ht
    refine keptFilters_meet_iff.mp fun l' hl' => ?_
    obtain ⟨elements', hperm, hread⟩ := exists_read_perm hl hl'
    obtain ⟨fs, hfs, hmatch⟩ := hkeeps elements' hperm (.map [("allowlist", .sequence elements')]) "allowlist" rfl
    rw [getFilters_of_read hread rfl, Except.ok.injEq] at hfs
    rw [hfs]
    exact (hmatch t).mpr ((exists_entry_iff hl).mpr ht)
  · intro hsettle elements' hperm yml tag hyml
    obtain ⟨l', hread, hl'⟩ := read_perm hl hperm
    refine ⟨_, getFilters_of_read hread hyml, fun t => ?_⟩
    rw [exists_entry_iff hl]
    constructor
    · rintro ⟨f, hf, hmatch⟩
      exact ⟨f, hl'.mem_iff.mp (mem_of_mem_keptFilters hf), hmatch⟩
    · intro ht
      exact keptFilters_meet_iff.mpr (hsettle t ht) l' hl'

/-- Filters that all print different texts settle every topic. -/
theorem printsSettle_of_separate {l : List WildcardDdsFilterTopic}
    (h : ∀ f ∈ l, ∀ g ∈ l, f.text env.fuzzy = g.text env.fuzzy → f = g) : PrintsSettle env matchPattern l := by
  rintro t ⟨g, hg, hmatch⟩
  refine ⟨g, hg, fun f hf htext => ?_⟩
  rw [h f hf g hg htext]
  exact hmatch

/-- An entry for the topics of one name, with a key or without. -/
def keyedEntry (keyed : String) : Yaml := .map [("name", .scalar "t"), ("keyed", .scalar keyed)]

/-- The entry for `t` twice, and two more names, one of them with a type. -/
def separateEntries : List Yaml :=
  [keyedEntry "true", .map [("name", .scalar "u")], keyedEntry "true",
    .map [("name", .scalar "v"), ("type", .scalar "T")]]

def separateFilters : List WildcardDdsFilterTopic :=
  [{ topicName := "t", typeName := ⟨"", 0⟩, keyed := ⟨true, 2⟩ }, { topicName := "u", typeName := ⟨"", 0⟩, keyed := ⟨false, 0⟩ },
    { topicName := "t", typeName := ⟨"", 0⟩, keyed := ⟨true, 2⟩ }, { topicName := "v", typeName := ⟨"T", 2⟩, keyed := ⟨false, 0⟩ }]

theorem keepsMeaning_separate : KeepsMeaning plainLibraries (fun p s => p = s) separateEntries := by
  have hsettle : PrintsSettle plainLibraries (fun p s => p = s) separateFilters := printsSettle_of_separate (by decide)
  exact (keepsMeaning_iff plainLibraries _ separateEntries separateFilters (by decide)).mpr hsettle

/-- Both entries print `t;keyed`, and the second one is dropped. -/
theorem keepsMeaning_fails_keyed :
    getList (getWildcardDdsFilterTopic plainLibraries) (.sequence [keyedEntry "true", keyedEntry "false"]) =
        .ok [{ topicName := "t", typeName := ⟨"", 0⟩, keyed := ⟨true, 2⟩ },
          { topicName := "t", typeName := ⟨"", 0⟩, keyed := ⟨false, 2⟩ }] ∧
      ¬ KeepsMeaning plainLibraries (fun p s => p = s) [keyedEntry "true", keyedEntry "false"] := by
  refine ⟨by decide, fun h => ?_⟩
  obtain ⟨fs, hfs, hmatch⟩ := h [keyedEntry "true", keyedEntry "false"] (List.Perm.refl _)
    (.map [("allowlist", .sequence [keyedEntry "true", keyedEntry "false"])]) "allowlist" rfl
  have hread : getFilters plainLibraries (.map [("allowlist", .sequence [keyedEntry "true", keyedEntry "false"])])
      "allowlist" = .ok [{ topicName := "t", typeName := ⟨"", 0⟩, keyed := ⟨true, 2⟩ }] := by decide
  rw [hread, Except.ok.injEq] at hfs
  subst hfs
  obtain ⟨f, hf, hft⟩ := (hmatch { topicName := "t", typeName := "T" }).mpr
    ⟨keyedEntry "false", by simp, { topicName := "t", typeName := ⟨"", 0⟩, keyed := ⟨false, 2⟩ }, by decide, by decide⟩
  rw [List.mem_singleton.mp hf] at hft
  exact absurd hft (by decide)

end DDSRouter.Configuration
