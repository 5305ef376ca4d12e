import DDSRouter.Filters
import DDSRouter.Lib.OrdMap
import Mathlib.Data.List.Induction
import Mathlib.Data.List.Pairwise

/-!
# Lists of filters without repetition

An `AllowedTopicList` leaves out the filters that another one contains. For
every implementation of `contains` that is transitive and sound this changes no
decision: in the list that is built no filter contains another, so that a new
filter is either contained in one of them, and then contains none, or replaces
those that it contains.
-/
namespace DDSRouter

open WeakOrder

section Lists

variable {α : Type} {contains : α → α → Bool} {stored : List α} {new : α}

/-- Neither contains the other. -/
def Apart (contains : α → α → Bool) (x y : α) : Prop := contains x y = false ∧ contains y x = false

instance : Std.Symm (Apart contains) := ⟨fun _ _ h => ⟨h.2, h.1⟩⟩

/-- A filter that is contained in a stored one leaves the list as it is. -/
theorem scanRepeated_of_contained (htrans : ∀ x y z, contains x y = true → contains y z = true → contains x z = true)
    (h : stored.Pairwise (Apart contains)) (hc : ∃ x ∈ stored, contains x new = true) :
    scanRepeated contains new stored = (stored, false) := by
  induction stored with
  | nil =>
    obtain ⟨x, hx, -⟩ := hc
    cases hx
  | cons y rest ih =>
    obtain ⟨hy, hrest⟩ := List.pairwise_cons.mp h
    by_cases hcy : contains y new = true
    · rw [scanRepeated, if_pos hcy]
    · obtain ⟨x, hx, hcx⟩ := hc
      have hxr : x ∈ rest := by
        rcases List.mem_cons.mp hx with rfl | hx
        · exact absurd hcx hcy
        · exact hx
      -- what the new filter contains would be contained in `x` too
      have hny : ¬ contains new y = true := by
        intro hny
        have hxy := htrans x new y hcx hny
        rw [(hy x hxr).2] at hxy
        cases hxy
      rw [scanRepeated, if_neg hcy, if_neg hny, ih hrest ⟨x, hxr, hcx⟩]

/-- One that is contained in none takes the place of those it contains. -/
theorem scanRepeated_of_not_contained (h : ∀ x ∈ stored, contains x new = false) :
    scanRepeated contains new stored = (stored.filter fun x => !contains new x, true) := by
  induction stored with
  | nil => rfl
  | cons y rest ih =>
    have hy : ¬ contains y new = true := by simp [h y List.mem_cons_self]
    rw [scanRepeated, if_neg hy, ih fun x hx => h x (List.mem_cons_of_mem _ hx)]
    cases hny : contains new y <;> simp [hny]

theorem addWithoutRepetition_cases (htrans : ∀ x y z, contains x y = true → contains y z = true → contains x z = true)
    (h : stored.Pairwise (Apart contains)) (new : α) :
    (addWithoutRepetition contains stored new = stored ∧ ∃ x ∈ stored, contains x new = true) ∨
      addWithoutRepetition contains stored new = stored.filter (fun x => !contains new x) ++ [new] ∧
        ∀ x ∈ stored, contains x new = false := by
  by_cases hc : ∃ x ∈ stored, contains x new = true
  · left
    rw [addWithoutRepetition, scanRepeated_of_contained htrans h hc]
    exact ⟨rfl, hc⟩
  · right
    have hnone : ∀ x ∈ stored, contains x new = false := by simpa using hc
    rw [addWithoutRepetition, scanRepeated_of_not_contained hnone]
    exact ⟨rfl, hnone⟩

/-- What the list built from `list` has of it: a part of it, in its order, in
which each filter is there or contained in another, and none contains another. -/
structure Reduced (contains : α → α → Bool) (list stored : List α) : Prop where
  sublist : stored.Sublist list
  apart : stored.Pairwise (Apart contains)
  covers : ∀ x ∈ list, x ∈ stored ∨ ∃ y ∈ stored, contains y x = true

theorem reduced_add (htrans : ∀ x y z, contains x y = true → contains y z = true → contains x z = true)
    {list : List α} (h : Reduced contains list stored) (new : α) :
    Reduced contains (list ++ [new]) (addWithoutRepetition contains stored new) := by
  rcases addWithoutRepetition_cases htrans h.apart new with ⟨heq, hc⟩ | ⟨heq, hnone⟩
  · rw [heq]
    refine ⟨h.sublist.trans (List.sublist_append_left _ _), h.apart, fun x hx => ?_⟩
    rcases List.mem_append.mp hx with hx | hx
    · exact h.covers x hx
    · rw [List.mem_singleton.mp hx]
      exact .inr hc
  · rw [heq]
    refine ⟨(List.filter_sublist.trans h.sublist).append (List.Sublist.refl _), ?_, fun x hx => ?_⟩
    · refine List.pairwise_append.mpr ⟨h.apart.filter _, List.pairwise_singleton _ _, fun x hx y hy => ?_⟩
      rw [List.mem_singleton.mp hy]
      obtain ⟨hxs, hnx⟩ := List.mem_filter.mp hx
      exact ⟨hnone x hxs, by simpa using hnx⟩
    · rcases List.mem_append.mp hx with hx | hx
      · -- a filter that leaves is contained in the new one, and so is what it covered
        have hkeep : ∀ y ∈ stored, y ∈ stored.filter (fun x => !contains new x) ++ [new] ∨ contains new y = true := by
          intro y hy
          cases hny : contains new y with
          | true => exact .inr rfl
          | false => exact .inl (List.mem_append_left _ (List.mem_filter.mpr ⟨hy, by simp [hny]⟩))
        have hnew : new ∈ stored.filter (fun x => !contains new x) ++ [new] :=
          List.mem_append_right _ List.mem_cons_self
        rcases h.covers x hx with hxs | ⟨y, hy, hyx⟩
        · exact (hkeep x hxs).imp_right fun hnx => ⟨new, hnew, hnx⟩
        · right
          rcases hkeep y hy with hy' | hny
          · exact ⟨y, hy', hyx⟩
          · exact ⟨new, hnew, htrans new y x hny hyx⟩
      · rw [List.mem_singleton.mp hx]
        exact .inl (List.mem_append_right _ List.mem_cons_self)

theorem reduced_withoutRepetition
    (htrans : ∀ x y z, contains x y = true → contains y z = true → contains x z = true) (list : List α) :
    Reduced contains list (topicListWithoutRepetition contains list) := by
  induction list using List.reverseRecOn with
  | nil => exact ⟨List.Sublist.refl _, .nil, fun x hx => (List.not_mem_nil hx).elim⟩
  | append_singleton list new ih =>
    rw [topicListWithoutRepetition, List.foldl_append, List.foldl_cons, List.foldl_nil]
    exact reduced_add htrans ih new

/-- Nothing is stored that is not in the list, whatever `contains` says. -/
theorem mem_of_mem_scanRepeated {x : α} (h : x ∈ (scanRepeated contains new stored).1) : x ∈ stored := by
  induction stored with
  | nil => exact h
  | cons y rest ih =>
    rw [scanRepeated] at h
    split at h
    · exact h
    · simp only at h
      split at h
      · exact List.mem_cons_of_mem _ (ih h)
      · rcases List.mem_cons.mp h with rfl | h
        · exact List.mem_cons_self
        · exact List.mem_cons_of_mem _ (ih h)

theorem mem_of_mem_withoutRepetition {list : List α} {x : α} (h : x ∈ topicListWithoutRepetition contains list) :
    x ∈ list := by
  induction list using List.reverseRecOn with
  | nil => exact h
  | append_singleton list new ih =>
    rw [topicListWithoutRepetition, List.foldl_append, List.foldl_cons, List.foldl_nil, addWithoutRepetition] at h
    rw [List.mem_append]
    split at h
    · rcases List.mem_append.mp h with h | h
      · exact .inl (ih (mem_of_mem_scanRepeated h))
      · exact .inr h
    · exact .inl (ih (mem_of_mem_scanRepeated h))

end Lists

/-! ### Sets of filters

The code keeps pointers to filters in sets that are ordered by pointer, so that
the filters come in any order. `contains` is that of the filters pointed to. -/

namespace FilterSet

variable {κ : Type} [WeakOrder κ]

/-- The loop over the stored topics: whether the new one is added, and the
stored ones that are repeated. -/
def scanStored (contains : κ → κ → Bool) (newTopic : κ) : List κ → Bool × List κ
  | [] => (true, [])
  | topicStored :: rest =>
    if contains topicStored newTopic then (false, [])
    else if contains newTopic topicStored then
      ((scanStored contains newTopic rest).1, topicStored :: (scanStored contains newTopic rest).2)
    else scanStored contains newTopic rest

/-- One round of the loop over the list. -/
def addTopic (contains : κ → κ → Bool) (nonRepeatedList : OrdMap κ Unit) (newTopic : κ) : OrdMap κ Unit :=
  let r := scanStored contains newTopic nonRepeatedList.keys
  let nonRepeatedList := r.2.foldl OrdMap.erase nonRepeatedList
  if r.1 then nonRepeatedList.set newTopic () else nonRepeatedList

/-- `get_topic_list_without_repetition_`. -/
def getTopicListWithoutRepetition (contains : κ → κ → Bool) (list : OrdMap κ Unit) : OrdMap κ Unit :=
  list.keys.foldl (addTopic contains) OrdMap.empty

/-- `AllowedTopicList` over any filters. -/
structure Lists (κ : Type) [WeakOrder κ] where
  allowlist : OrdMap κ Unit
  blocklist : OrdMap κ Unit

def Lists.create (contains : κ → κ → Bool) (allowlist blocklist : OrdMap κ Unit) : Lists κ :=
  { allowlist := getTopicListWithoutRepetition contains allowlist
    blocklist := getTopicListWithoutRepetition contains blocklist }

def Lists.isTopicAllowed (matchesTopic : κ → DdsTopic → Bool) (l : Lists κ) (t : DdsTopic) : Bool :=
  (l.allowlist.keys.isEmpty || l.allowlist.keys.any fun f => matchesTopic f t) &&
    !l.blocklist.keys.any fun f => matchesTopic f t

variable [TotalKey κ] {contains : κ → κ → Bool}

theorem keys_erase [DecidableEq κ] (m : OrdMap κ Unit) (k : κ) : (m.erase k).keys = m.keys.filter fun x => x ≠ k := by
  have hfilter : ∀ x : κ, (!same k x) = decide (x ≠ k) := by
    intro x
    rw [Bool.eq_iff_iff, Bool.not_eq_true', ← Bool.not_eq_true, same_iff_eq, decide_eq_true_iff, ne_comm]
  rw [OrdMap.keys, OrdMap.keys, List.filter_map]
  simp only [OrdMap.erase, hfilter, Function.comp_def]

theorem keys_foldl_erase [DecidableEq κ] (ks : List κ) (m : OrdMap κ Unit) :
    (ks.foldl OrdMap.erase m).keys = m.keys.filter fun x => x ∉ ks := by
  induction ks generalizing m with
  | nil => simp
  | cons k ks ih =>
    rw [List.foldl_cons, ih, keys_erase, List.filter_filter]
    congr 1
    funext x
    simp only [List.mem_cons, not_or, ne_eq, Bool.decide_and, Bool.and_comm]

omit [WeakOrder κ] [TotalKey κ] in
/-- The scan of the set and that of the list find the same. -/
theorem scanRepeated_eq [DecidableEq κ] (contains : κ → κ → Bool) (new : κ) {stored : List κ} (h : stored.Nodup) :
    scanRepeated contains new stored =
        (stored.filter fun x => x ∉ (scanStored contains new stored).2, (scanStored contains new stored).1) ∧
      ∀ x ∈ (scanStored contains new stored).2, x ∈ stored := by
  induction stored with
  | nil => exact ⟨rfl, fun x hx => hx⟩
  | cons y rest ih =>
    obtain ⟨hy, hrest⟩ := List.nodup_cons.mp h
    obtain ⟨heq, hsub⟩ := ih hrest
    have hyr : y ∉ (scanStored contains new rest).2 := fun hmem => hy (hsub y hmem)
    rw [scanRepeated, scanStored]
    split
    · exact ⟨by simp, fun x hx => (List.not_mem_nil hx).elim⟩
    · split
      · refine ⟨?_, fun x hx => List.mem_cons.mpr ((List.mem_cons.mp hx).imp_right (hsub x))⟩
        rw [heq]
        have hfilter : rest.filter (fun x => x ∉ (scanStored contains new rest).2) =
            rest.filter fun x => x ∉ y :: (scanStored contains new rest).2 := by
          apply List.filter_congr
          intro x hx
          have hne : x ≠ y := fun hxy => hy (hxy ▸ hx)
          simp [hne]
        simp only [hfilter, List.filter_cons, List.mem_cons, true_or, not_true_eq_false, decide_false,
          Bool.false_eq_true, if_false]
      · refine ⟨?_, fun x hx => List.mem_cons_of_mem _ (hsub x hx)⟩
        rw [heq]
        simp only [List.filter_cons, hyr, not_false_eq_true, decide_true, if_true]

/-- A filter with a greater pointer than all stored ones is added at the end. -/
theorem keys_addTopic {m : OrdMap κ Unit} {new : κ} (h : ∀ k ∈ m.keys, lt k new = true) :
    (addTopic contains m new).keys = addWithoutRepetition contains m.keys new := by
  classical
  have hscan := (scanRepeated_eq contains new m.keys_nodup).1
  have herase := keys_foldl_erase (scanStored contains new m.keys).2 m
  rw [addTopic, addWithoutRepetition, hscan]
  simp only
  split
  · have hgreatest : ∀ e ∈ ((scanStored contains new m.keys).2.foldl OrdMap.erase m).entries, lt e.1 new = true := by
      intro e he
      have hk := OrdMap.mem_keys_of_mem he
      rw [herase] at hk
      exact h e.1 (List.mem_filter.mp hk).1
    rw [OrdMap.keys, OrdMap.entries_set_greatest () hgreatest, List.map_append, ← OrdMap.keys, herase]
    rfl
  · exact herase

theorem keys_foldl_addTopic {l : List κ} (h : l.Pairwise fun a b => lt a b = true) :
    (l.foldl (addTopic contains) OrdMap.empty).keys = topicListWithoutRepetition contains l := by
  induction l using List.reverseRecOn with
  | nil => rfl
  | append_singleton l new ih =>
    obtain ⟨hl, -, hnew⟩ := List.pairwise_append.mp h
    have hkeys := ih hl
    rw [List.foldl_append, List.foldl_cons, List.foldl_nil, topicListWithoutRepetition, List.foldl_append,
      List.foldl_cons, List.foldl_nil, keys_addTopic, hkeys]
    · rfl
    · intro k hk
      rw [hkeys] at hk
      exact hnew k (mem_of_mem_withoutRepetition hk) new List.mem_cons_self

/-- The set without repetition is the list without repetition of the filters in
the order of their pointers. -/
theorem keys_getTopicListWithoutRepetition (list : OrdMap κ Unit) :
    (getTopicListWithoutRepetition contains list).keys = topicListWithoutRepetition contains list.keys :=
  keys_foldl_addTopic list.keys_pairwise

/-- The reduced set is a part of the given one, empty only with it, matches the
same topics, and none of its filters contains another. -/
structure KeepsDecision (contains : κ → κ → Bool) (matchesTopic : κ → DdsTopic → Bool) (list reduced : OrdMap κ Unit) :
    Prop where
  sublist : reduced.keys.Sublist list.keys
  union : ∀ t, (∃ f ∈ reduced.keys, matchesTopic f t = true) ↔ ∃ f ∈ list.keys, matchesTopic f t = true
  empty : reduced.keys = [] ↔ list.keys = []
  antichain : ∀ f ∈ reduced.keys, ∀ g ∈ reduced.keys, f ≠ g → contains f g = false

section

variable {matchesTopic : κ → DdsTopic → Bool}
  (htrans : ∀ f g h, contains f g = true → contains g h = true → contains f h = true)
  (hsound : ∀ f g, contains f g = true → ∀ t, matchesTopic g t = true → matchesTopic f t = true)

include htrans hsound

theorem keepsDecision_getTopicListWithoutRepetition (list : OrdMap κ Unit) :
    KeepsDecision contains matchesTopic list (getTopicListWithoutRepetition contains list) := by
  have h : Reduced contains list.keys (getTopicListWithoutRepetition contains list).keys := by
    rw [keys_getTopicListWithoutRepetition]
    exact reduced_withoutRepetition htrans list.keys
  have hsub := h.sublist.subset
  refine ⟨h.sublist, fun t => ⟨fun ⟨f, hf, hft⟩ => ⟨f, hsub hf, hft⟩, ?_⟩, ⟨fun hnil => ?_, fun hnil => ?_⟩, ?_⟩
  · rintro ⟨f, hf, hft⟩
    rcases h.covers f hf with hf' | ⟨g, hg, hgf⟩
    · exact ⟨f, hf', hft⟩
    · exact ⟨g, hg, hsound g f hgf t hft⟩
  · -- each filter of the list leaves one behind
    rw [List.eq_nil_iff_forall_not_mem]
    intro f hf
    rcases h.covers f hf with hf' | ⟨g, hg, -⟩
    · rw [hnil] at hf'
      cases hf'
    · rw [hnil] at hg
      cases hg
  · rw [hnil] at hsub
    exact List.subset_nil.mp hsub
  · intro f hf g hg hne
    exact (h.apart.forall hf hg hne).1

/-- Leaving out repeated filters changes no decision: a topic is allowed iff the
lists as given allow it. -/
theorem isTopicAllowed_create_iff :
    (∀ list, KeepsDecision contains matchesTopic list (getTopicListWithoutRepetition contains list)) ∧
      ∀ (allowlist blocklist : OrdMap κ Unit) (t : DdsTopic),
        (Lists.create contains allowlist blocklist).isTopicAllowed matchesTopic t = true ↔
          (allowlist.keys = [] ∨ ∃ f ∈ allowlist.keys, matchesTopic f t = true) ∧
            ¬ ∃ f ∈ blocklist.keys, matchesTopic f t = true := by
  have hkeeps := keepsDecision_getTopicListWithoutRepetition htrans hsound
  refine ⟨hkeeps, fun allowlist blocklist t => ?_⟩
  rw [← (hkeeps allowlist).empty, ← (hkeeps allowlist).union t, ← (hkeeps blocklist).union t]
  simp [Lists.isTopicAllowed, Lists.create]

end

/-- Filters by their numbers: the first one is for all topics, the others for one. -/
def numberedContains (f g : SequenceNumber) : Bool := f = 1 || f = g

def numberedMatches (f : SequenceNumber) (t : DdsTopic) : Bool := f = 1 || t.topicName = "t"

theorem isTopicAllowed_create_numbered :
    (Lists.create numberedContains (OrdMap.ofKeys [2, 1, 3]) (OrdMap.ofKeys [])).isTopicAllowed numberedMatches
        { topicName := "u", typeName := "T" } = true ↔
      ((OrdMap.ofKeys ([2, 1, 3] : List SequenceNumber)).keys = [] ∨
        ∃ f ∈ (OrdMap.ofKeys ([2, 1, 3] : List SequenceNumber)).keys,
          numberedMatches f { topicName := "u", typeName := "T" } = true) ∧
        ¬ ∃ f ∈ (OrdMap.ofKeys ([] : List SequenceNumber)).keys,
          numberedMatches f { topicName := "u", typeName := "T" } = true := by
  refine (isTopicAllowed_create_iff (fun f g h hfg hgh => ?_) fun f g hfg t hg => ?_).2 _ _ _
  · simp only [numberedContains, Bool.or_eq_true, decide_eq_true_eq] at hfg hgh ⊢
    rcases hfg with hf | rfl
    · exact .inl hf
    · exact hgh
  · simp only [numberedContains, numberedMatches, Bool.or_eq_true, decide_eq_true_eq] at hfg hg ⊢
    rcases hfg with h | rfl
    · exact .inl h
    · exact hg

end FilterSet

end DDSRouter
