import DDSRouter.Types

/-!
# Filters of topics

The allowlist and the blocklist hold filters over topic name, type name and key.
Whether two filters are equal is decided on their text, whether a topic passes
is decided on their fields. Some of the work is done in `cpp_utils`: whether a
fuzzy value is set, how it is printed, and the matching of a string against a
pattern. These three are parameters.
-/
namespace DDSRouter

/-- A value together with the level to which it is known. -/
structure Fuzzy (α : Type) where
  value : α
  level : Nat
  deriving DecidableEq, Repr

/-- `is_set` of fuzzy values, by their level, and how they are printed. -/
structure FuzzyUtils where
  isSet : Nat → Bool
  fuzzyStr : Fuzzy String → String

/-- What the filters use of `cpp_utils`. -/
structure CppUtils extends FuzzyUtils where
  matchPattern : String → String → Bool

def FuzzyUtils.isSetValue {α : Type} (u : FuzzyUtils) (x : Fuzzy α) : Bool := u.isSet x.level

/-- The value where it is set. -/
def FuzzyUtils.get? {α : Type} (u : FuzzyUtils) (x : Fuzzy α) : Option α :=
  if u.isSetValue x then some x.value else none

structure WildcardDdsFilterTopic where
  topicName : String := "*"
  typeName : Fuzzy String
  keyed : Fuzzy Bool
  deriving DecidableEq, Repr

namespace WildcardDdsFilterTopic

/-- Not implemented in the source. -/
def contains (_ _ : WildcardDdsFilterTopic) : Bool := false

def matchesTopic (u : CppUtils) (f : WildcardDdsFilterTopic) (t : DdsTopic) : Bool :=
  if u.isSetValue f.keyed && f.keyed.value != t.keyed then false
  else if u.isSetValue f.typeName && !u.matchPattern f.typeName.value t.typeName then false
  else u.matchPattern f.topicName t.topicName

/-- The stream operator. The key is named, but not its value. -/
def text (u : FuzzyUtils) (f : WildcardDdsFilterTopic) : String :=
  let keyedStr := if u.isSetValue f.keyed then ";keyed" else ""
  let typeNameStr := if u.isSetValue f.typeName then ";" ++ u.fuzzyStr f.typeName else ""
  "WildcardDdsFilterTopic\x7b" ++ f.topicName ++ typeNameStr ++ keyedStr ++ "\x7d"

/-- `operator ==`. -/
def equal (u : FuzzyUtils) (f g : WildcardDdsFilterTopic) : Bool := text u g = text u f

end WildcardDdsFilterTopic

/-- One round of `get_topic_list_without_repetition_`: the topics stored that
stay, and whether the new one is added. The search ends at a topic that contains
the new one. -/
def scanRepeated {α : Type} (contains : α → α → Bool) (new : α) : List α → List α × Bool
  | [] => ([], true)
  | x :: rest =>
    if contains x new then (x :: rest, false)
    else
      ((if contains new x then (scanRepeated contains new rest).1
        else x :: (scanRepeated contains new rest).1),
        (scanRepeated contains new rest).2)

def addWithoutRepetition {α : Type} (contains : α → α → Bool) (stored : List α) (new : α) : List α :=
  let r := scanRepeated contains new stored
  if r.2 then r.1 ++ [new] else r.1

def topicListWithoutRepetition {α : Type} (contains : α → α → Bool) (list : List α) : List α :=
  list.foldl (addWithoutRepetition contains) []

structure AllowedTopicList where
  allowlist : List WildcardDdsFilterTopic
  blocklist : List WildcardDdsFilterTopic
  deriving DecidableEq, Repr

namespace AllowedTopicList

open WildcardDdsFilterTopic

def create (allowlist blocklist : List WildcardDdsFilterTopic) : AllowedTopicList :=
  { allowlist := topicListWithoutRepetition contains allowlist
    blocklist := topicListWithoutRepetition contains blocklist }

variable (u : CppUtils)

def isTopicAllowed (l : AllowedTopicList) (t : DdsTopic) : Bool :=
  (l.allowlist.isEmpty || l.allowlist.any fun f => f.matchesTopic u t) &&
    !l.blocklist.any fun f => f.matchesTopic u t

def isServiceAllowed (l : AllowedTopicList) (s : RPCTopic) : Bool :=
  isTopicAllowed u l s.requestTopic && isTopicAllowed u l s.replyTopic

/-- `are_set_of_ptr_equal`: every filter of one list has an equal one in the
other. -/
def areSetOfPtrEqual (u : FuzzyUtils) (a b : List WildcardDdsFilterTopic) : Bool :=
  (a.all fun f => b.any fun g => equal u f g) && b.all fun g => a.any fun f => equal u g f

def equal (u : FuzzyUtils) (l m : AllowedTopicList) : Bool :=
  areSetOfPtrEqual u l.allowlist m.allowlist && areSetOfPtrEqual u l.blocklist m.blocklist

end AllowedTopicList

theorem scanRepeated_of_not_contains {α : Type} {contains : α → α → Bool}
    (h : ∀ a b, contains a b = false) (new : α) (l : List α) :
    scanRepeated contains new l = (l, true) := by
  induction l with
  | nil => rfl
  | cons x l ih => simp [scanRepeated, h, ih]

/-- As long as no filter contains another one, the lists are kept as given. -/
theorem withoutRepetition_of_not_contains {α : Type} {contains : α → α → Bool}
    (h : ∀ a b, contains a b = false) (l : List α) : topicListWithoutRepetition contains l = l := by
  have hfold : ∀ stored : List α, l.foldl (addWithoutRepetition contains) stored = stored ++ l := by
    induction l with
    | nil => simp
    | cons x l ih =>
      intro stored
      have hadd : addWithoutRepetition contains stored x = stored ++ [x] := by
        simp [addWithoutRepetition, scanRepeated_of_not_contains h]
      rw [List.foldl_cons, hadd, ih, List.append_assoc, List.singleton_append]
  exact hfold []

namespace AllowedTopicList

open WildcardDdsFilterTopic

@[simp] theorem create_allowlist (allowlist blocklist : List WildcardDdsFilterTopic) :
    (create allowlist blocklist).allowlist = allowlist :=
  withoutRepetition_of_not_contains (fun _ _ => rfl) allowlist

@[simp] theorem create_blocklist (allowlist blocklist : List WildcardDdsFilterTopic) :
    (create allowlist blocklist).blocklist = blocklist :=
  withoutRepetition_of_not_contains (fun _ _ => rfl) blocklist

theorem areSetOfPtrEqual_iff {u : FuzzyUtils} {a b : List WildcardDdsFilterTopic} :
    areSetOfPtrEqual u a b = true ↔
      (∀ f ∈ a, ∃ g ∈ b, text u g = text u f) ∧ ∀ g ∈ b, ∃ f ∈ a, text u f = text u g := by
  simp [areSetOfPtrEqual, WildcardDdsFilterTopic.equal]

/-- Over filters whose text decides what they match, equal lists match the same. -/
theorem any_congr_of_equal {u : CppUtils} {a b : List WildcardDdsFilterTopic} {t : DdsTopic}
    (heq : areSetOfPtrEqual u.toFuzzyUtils a b = true)
    (hm : ∀ f ∈ a, ∀ g ∈ b, text u.toFuzzyUtils f = text u.toFuzzyUtils g →
      f.matchesTopic u t = g.matchesTopic u t) :
    (a.any fun f => f.matchesTopic u t) = b.any fun f => f.matchesTopic u t := by
  obtain ⟨hab, hba⟩ := areSetOfPtrEqual_iff.mp heq
  rw [Bool.eq_iff_iff, List.any_eq_true, List.any_eq_true]
  constructor
  · rintro ⟨f, hf, hft⟩
    obtain ⟨g, hg, htext⟩ := hab f hf
    exact ⟨g, hg, (hm f hf g hg htext.symm).symm.trans hft⟩
  · rintro ⟨g, hg, hgt⟩
    obtain ⟨f, hf, htext⟩ := hba g hg
    exact ⟨f, hf, (hm f hf g hg htext).trans hgt⟩

theorem isEmpty_congr_of_equal {u : FuzzyUtils} {a b : List WildcardDdsFilterTopic}
    (heq : areSetOfPtrEqual u a b = true) : a.isEmpty = b.isEmpty := by
  obtain ⟨hab, hba⟩ := areSetOfPtrEqual_iff.mp heq
  cases a with
  | nil =>
    cases b with
    | nil => rfl
    | cons g b =>
      obtain ⟨f, hf, -⟩ := hba g (by simp)
      simp at hf
  | cons f a =>
    cases b with
    | nil =>
      obtain ⟨g, hg, -⟩ := hab f (by simp)
      simp at hg
    | cons g b => rfl

/-- Lists that are equal allow the same topics, where text decides matching. -/
theorem isTopicAllowed_congr {u : CppUtils} {l m : AllowedTopicList} {t : DdsTopic}
    (heq : equal u.toFuzzyUtils l m = true)
    (hallow : ∀ f ∈ l.allowlist, ∀ g ∈ m.allowlist, text u.toFuzzyUtils f = text u.toFuzzyUtils g →
      f.matchesTopic u t = g.matchesTopic u t)
    (hblock : ∀ f ∈ l.blocklist, ∀ g ∈ m.blocklist, text u.toFuzzyUtils f = text u.toFuzzyUtils g →
      f.matchesTopic u t = g.matchesTopic u t) :
    isTopicAllowed u l t = isTopicAllowed u m t := by
  simp only [equal, Bool.and_eq_true] at heq
  simp only [isTopicAllowed]
  rw [isEmpty_congr_of_equal heq.1, any_congr_of_equal heq.1 hallow, any_congr_of_equal heq.2 hblock]

end AllowedTopicList

end DDSRouter
