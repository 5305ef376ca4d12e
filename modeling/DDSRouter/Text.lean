import DDSRouter.Types

/-!
# Words in texts

What searching for a word and replacing words does to a text. Names are split
into parts here, and a word can lie across the border of two parts; where it
cannot, the parts are searched and replaced one by one.
-/
namespace DDSRouter

/-- The word begins in `a` and ends in `b`. -/
def Straddles (w a b : List Char) : Prop := ∃ u v, u ≠ [] ∧ v ≠ [] ∧ w = u ++ v ∧ u <:+ a ∧ v <+: b

section Border

variable {w a b : List Char}

/-- No proper part at the end of the word begins `b`. -/
def EndsBefore (w b : List Char) : Prop := ∀ i < w.length, 0 < i → ¬ w.drop i <+: b

/-- No proper part at the beginning of the word ends `a`. -/
def StartsAfter (w a : List Char) : Prop := ∀ i < w.length, 0 < i → ¬ w.take i <:+ a

instance : Decidable (EndsBefore w b) := inferInstanceAs (Decidable (∀ i < w.length, 0 < i → ¬ w.drop i <+: b))

instance : Decidable (StartsAfter w a) := inferInstanceAs (Decidable (∀ i < w.length, 0 < i → ¬ w.take i <:+ a))

theorem not_straddles_of_endsBefore (h : EndsBefore w b) : ¬ Straddles w a b := by
  rintro ⟨u, v, hu, hv, rfl, -, hpre⟩
  have hul : 0 < u.length := List.length_pos_iff.mpr hu
  have hvl : 0 < v.length := List.length_pos_iff.mpr hv
  refine h u.length (by rw [List.length_append]; omega) hul ?_
  rwa [List.drop_left]

theorem not_straddles_of_startsAfter (h : StartsAfter w a) : ¬ Straddles w a b := by
  rintro ⟨u, v, hu, hv, rfl, hsuf, -⟩
  have hul : 0 < u.length := List.length_pos_iff.mpr hu
  have hvl : 0 < v.length := List.length_pos_iff.mpr hv
  refine h u.length (by rw [List.length_append]; omega) hul ?_
  rwa [List.take_left]

theorem prefix_append_of_not_straddles (ha : a ≠ []) (h : ¬ Straddles w a b) : w <+: a ++ b ↔ w <+: a := by
  refine ⟨fun hw => ?_, fun hw => hw.trans (List.prefix_append a b)⟩
  rcases List.prefix_or_prefix_of_prefix hw (List.prefix_append a b) with hwa | ⟨v, rfl⟩
  · exact hwa
  · by_cases hv : v = []
    · simp [hv]
    · refine absurd ⟨a, v, ha, hv, rfl, List.suffix_rfl, ?_⟩ h
      exact (List.prefix_append_right_inj a).mp hw

end Border

/-! ### Searching -/

section Search

variable {pat : List Char}

theorem findFrom_zero {l : List Char} : findFrom pat l 0 = some 0 ↔ pat <+: l := by
  cases l with
  | nil =>
    cases pat with
    | nil => simp [findFrom]
    | cons p pat => simp [findFrom]
  | cons c cs =>
    simp only [findFrom]
    split
    · rename_i h
      simpa using h
    · rename_i h
      have hnot : ¬ pat <+: c :: cs := by simpa using h
      have hlater : ∀ (l : List Char) (i j : Nat), findFrom pat l i = some j → i ≤ j := by
        intro l
        induction l with
        | nil =>
          intro i j hj
          simp only [findFrom] at hj
          split at hj
          · cases hj
            exact le_rfl
          · cases hj
        | cons d ds ih =>
          intro i j hj
          simp only [findFrom] at hj
          split at hj
          · cases hj
            exact le_rfl
          · exact (Nat.le_succ i).trans (ih (i + 1) j hj)
      simp only [hnot, iff_false]
      intro hj
      have := hlater cs (0 + 1) 0 hj
      omega

theorem rfindFrom_eq_none {l : List Char} {i : Nat} : rfindFrom pat l i = none ↔ ¬ pat <:+: l := by
  induction l generalizing i with
  | nil => cases pat <;> simp [rfindFrom]
  | cons c cs ih =>
    rw [List.infix_cons_iff, not_or, ← ih (i := i + 1), rfindFrom]
    cases rfindFrom pat cs (i + 1) with
    | none => simp
    | some j => simp

/-- The last occurrence: the word is there, and at no later place. -/
theorem rfindFrom_some {l : List Char} {i j : Nat} (h : rfindFrom pat l i = some j) :
    ∃ a b, l = a ++ pat ++ b ∧ j = i + a.length ∧ ∀ a' b', l = a' ++ pat ++ b' → a'.length ≤ a.length := by
  induction l generalizing i with
  | nil =>
    simp only [rfindFrom] at h
    split at h
    · rename_i hp
      cases h
      rw [List.isEmpty_iff] at hp
      refine ⟨[], [], by simp [hp], rfl, fun a' b' h' => ?_⟩
      rw [List.append_assoc] at h'
      simp [(List.append_eq_nil_iff.mp h'.symm).1]
    · cases h
  | cons c cs ih =>
    simp only [rfindFrom] at h
    split at h
    · rename_i k hk
      cases h
      obtain ⟨a, b, rfl, rfl, hlast⟩ := ih hk
      refine ⟨c :: a, b, rfl, by simp only [List.length_cons]; omega, fun a' b' h' => ?_⟩
      cases a' with
      | nil => simp
      | cons d a' =>
        simp only [List.cons_append, List.cons.injEq] at h'
        simpa using hlast a' b' h'.2
    · rename_i hk
      split at h
      · rename_i hp
        cases h
        obtain ⟨b, hb⟩ := List.isPrefixOf_iff_prefix.mp hp
        refine ⟨[], b, by simp [hb], rfl, fun a' b' h' => ?_⟩
        cases a' with
        | nil => exact le_rfl
        | cons d a' =>
          simp only [List.cons_append, List.cons.injEq] at h'
          exact absurd (h'.2 ▸ List.infix_append a' pat b') (rfindFrom_eq_none.mp hk)
      · cases h

theorem find_eq_zero {s pat : String} : find s pat = 0 ↔ pat.toList <+: s.toList := by
  rw [← findFrom_zero, find]
  cases findFrom pat.toList s.toList 0 with
  | none => simp [npos]
  | some j => simp

/-- `rfind` plus the length of the word is the length of the text where the word
stands at the end. The sum wraps around where the word is not found, and is then one
less than the length of the word. -/
theorem rfind_at_end {s w : String} (hs : s.length < npos) (hw : 0 < w.length) (hwn : w.length < npos) :
    sizeAdd (rfind s w) w.length = s.length ↔ w.toList <:+ s.toList ∨ s.length + 1 = w.length := by
  rw [← String.length_toList (s := s), ← String.length_toList (s := w)] at *
  unfold rfind sizeAdd
  simp only [npos] at hs hwn ⊢
  cases h : rfindFrom w.toList s.toList 0 with
  | none =>
    have hnot := rfindFrom_eq_none.mp h
    have hsuf : ¬ w.toList <:+ s.toList := fun hw => hnot hw.isInfix
    simp only [Option.getD_none, hsuf, false_or]
    omega
  | some j =>
    obtain ⟨a, b, hl, rfl, hlast⟩ := rfindFrom_some h
    have hlen := congrArg List.length hl
    simp only [List.length_append] at hlen
    have hend : w.toList <:+ s.toList ↔ b.length = 0 := by
      constructor
      · rintro ⟨c, hc⟩
        have := hlast c [] (by simp [hc])
        have := congrArg List.length hc
        simp only [List.length_append] at this
        omega
      · intro hb
        exact ⟨a, by rw [hl, List.eq_nil_of_length_eq_zero hb, List.append_nil]⟩
    rw [hend, Option.getD_some]
    omega

/-- The same for a word that stands one character before the end. -/
theorem rfind_before_last {s w : String} (hs : s.length < npos) (hw : 1 < w.length) (hwn : w.length + 1 < npos)
    (hself : EndsBefore w.toList w.toList) :
    sizeAdd (sizeAdd (rfind s w) w.length) 1 = s.length ↔
      (∃ b c, s.toList = b ++ w.toList ++ [c]) ∨ s.length = w.length ∧ s ≠ w := by
  have heq : s ≠ w ↔ s.toList ≠ w.toList := not_congr String.toList_inj.symm
  rw [heq, ← String.length_toList (s := s), ← String.length_toList (s := w)] at *
  unfold rfind sizeAdd
  simp only [npos] at hs hwn ⊢
  cases h : rfindFrom w.toList s.toList 0 with
  | none =>
    have hnot := rfindFrom_eq_none.mp h
    have hin : ¬ ∃ b c, s.toList = b ++ w.toList ++ [c] := by
      rintro ⟨b, c, hbc⟩
      exact hnot (hbc ▸ List.infix_append b w.toList [c])
    have hne : s.toList ≠ w.toList := fun he => hnot (he ▸ List.infix_rfl)
    simp only [Option.getD_none, hin, false_or, hne, ne_eq, not_false_eq_true, and_true]
    omega
  | some j =>
    obtain ⟨a, b, hl, rfl, hlast⟩ := rfindFrom_some h
    have hlen := congrArg List.length hl
    simp only [List.length_append] at hlen
    have hshort : ¬ (s.toList.length = w.toList.length ∧ s.toList ≠ w.toList) := by
      rintro ⟨he, hne⟩
      have ha : a = [] := List.eq_nil_of_length_eq_zero (by omega)
      have hb : b = [] := List.eq_nil_of_length_eq_zero (by omega)
      rw [ha, hb, List.nil_append, List.append_nil] at hl
      exact hne hl
    have hend : (∃ b c, s.toList = b ++ w.toList ++ [c]) ↔ b.length = 1 := by
      constructor
      · rintro ⟨b', c, hbc⟩
        have hle := hlast b' [c] hbc
        have hlen' := congrArg List.length hbc
        simp only [List.length_append, List.length_singleton] at hlen'
        by_contra hne
        -- the word would stand at the end as well, one place further on
        have hb : b = [] := List.eq_nil_of_length_eq_zero (by omega)
        refine hself 1 hw Nat.one_pos ⟨[c], ?_⟩
        rw [hb, List.append_nil, hbc, List.append_assoc] at hl
        have hdrop := congrArg (List.drop (b'.length + 1)) hl
        have ha : a.length = b'.length + 1 := by omega
        rw [← ha, List.drop_left, ha, List.drop_append] at hdrop
        simpa [List.drop_append, hw.le, List.drop_eq_nil_of_le (Nat.le_succ b'.length)] using hdrop
      · intro hb
        obtain ⟨c, rfl⟩ := List.length_eq_one_iff.mp hb
        exact ⟨a, c, hl⟩
    rw [hend, Option.getD_some]
    simp only [hshort, or_false]
    omega

end Search

/-! ### Replacing -/

section Replace

variable {words : List (List Char)} {repl : List Char}

/-- The counter skips. -/
theorem replaceFrom_drop (n : Nat) (l : List Char) : replaceFrom words repl n l = replaceFrom words repl 0 (l.drop n) := by
  induction n generalizing l with
  | zero => rfl
  | succ n ih =>
    cases l with
    | nil => simp [replaceFrom]
    | cons c cs =>
      rw [replaceFrom, List.drop_succ_cons]
      exact ih cs

theorem replaceFrom_of_absent {l : List Char} (h : ∀ w ∈ words, ¬ w <:+: l) : replaceFrom words repl 0 l = l := by
  induction l with
  | nil => rfl
  | cons c cs ih =>
    have hfind : words.find? (fun w => w.isPrefixOf (c :: cs)) = none := by
      rw [List.find?_eq_none]
      intro w hw hp
      exact h w hw (List.isPrefixOf_iff_prefix.mp hp).isInfix
    simp only [replaceFrom, hfind]
    rw [ih fun w hw hin => h w hw (List.infix_cons hin)]

/-- A text whose beginning is the word that matches there. -/
theorem replaceFrom_word {w l : List Char} (hw : w ≠ []) (hfind : words.find? (fun v => v.isPrefixOf (w ++ l)) = some w) :
    replaceFrom words repl 0 (w ++ l) = repl ++ replaceFrom words repl 0 l := by
  cases w with
  | nil => exact absurd rfl hw
  | cons c cs =>
    rw [List.cons_append] at hfind ⊢
    simp only [replaceFrom, hfind, List.length_cons, Nat.add_sub_cancel]
    rw [replaceFrom_drop, List.drop_left]

/-- Parts that no word straddles are replaced one by one. -/
theorem replaceFrom_append {a b : List Char} (h : ∀ w ∈ words, ¬ Straddles w a b) {n : Nat} (hn : n ≤ a.length) :
    replaceFrom words repl n (a ++ b) = replaceFrom words repl n a ++ replaceFrom words repl 0 b := by
  induction a generalizing n with
  | nil =>
    obtain rfl : n = 0 := Nat.le_zero.mp hn
    simp [replaceFrom]
  | cons c cs ih =>
    have htail : ∀ w ∈ words, ¬ Straddles w cs b := by
      rintro w hw ⟨u, v, hu, hv, huv, hsuf, hpre⟩
      exact h w hw ⟨u, v, hu, hv, huv, hsuf.trans (List.suffix_cons c cs), hpre⟩
    cases n with
    | succ n =>
      simp only [List.cons_append, replaceFrom]
      exact ih htail (Nat.le_of_succ_le_succ hn)
    | zero =>
      have hfind : words.find? (fun w => w.isPrefixOf (c :: (cs ++ b))) = words.find? (fun w => w.isPrefixOf (c :: cs)) := by
        rw [← List.head?_filter, ← List.head?_filter]
        refine congrArg List.head? (List.filter_congr fun w hw => ?_)
        rw [Bool.eq_iff_iff, List.isPrefixOf_iff_prefix, List.isPrefixOf_iff_prefix, ← List.cons_append]
        exact prefix_append_of_not_straddles (List.cons_ne_nil c cs) (h w hw)
      simp only [List.cons_append, replaceFrom, hfind]
      cases hw : words.find? (fun w => w.isPrefixOf (c :: cs)) with
      | none =>
        simp only [List.cons_append]
        rw [ih htail (Nat.zero_le _)]
      | some w =>
        have hpre := List.find?_some hw
        have hlen := (List.isPrefixOf_iff_prefix.mp hpre).length_le
        simp only [List.length_cons] at hlen
        simp only [List.append_assoc]
        rw [ih htail (by omega)]

variable {w : List Char}

/-- The first occurrence is replaced, and then the rest. -/
theorem replaceFrom_first (repl : List Char) {l : List Char} (hw : w ≠ []) (h : w <:+: l) :
    ∃ a b, l = a ++ w ++ b ∧ replaceFrom [w] repl 0 l = a ++ repl ++ replaceFrom [w] repl 0 b := by
  induction l with
  | nil => exact absurd (List.infix_nil.mp h) hw
  | cons c cs ih =>
    by_cases hp : w <+: c :: cs
    · obtain ⟨b, hb⟩ := hp
      refine ⟨[], b, by simp [hb], ?_⟩
      rw [← hb, replaceFrom_word hw (by simp)]
      rfl
    · obtain ⟨a, b, rfl, hr⟩ := ih ((List.infix_cons_iff.mp h).resolve_left hp)
      refine ⟨c :: a, b, rfl, ?_⟩
      have hfind : [w].find? (fun v => v.isPrefixOf (c :: (a ++ w ++ b))) = none := by simpa using hp
      simp only [replaceFrom, hfind, hr, List.cons_append]

theorem length_replaceFrom_le (h : repl.length ≤ w.length) (n : Nat) (l : List Char) :
    (replaceFrom [w] repl n l).length ≤ l.length - n := by
  induction l generalizing n with
  | nil => simp [replaceFrom]
  | cons c cs ih =>
    cases n with
    | succ n => simpa [replaceFrom] using ih n
    | zero =>
      simp only [replaceFrom]
      split
      · rename_i v hv
        obtain rfl : v = w := by simpa using List.mem_of_find?_eq_some hv
        have hpre := List.find?_some hv
        have hlen := (List.isPrefixOf_iff_prefix.mp hpre).length_le
        have := ih (v.length - 1)
        simp only [List.length_cons, List.length_append] at hlen ⊢
        omega
      · simpa using ih 0

theorem le_length_replaceFrom (hw : w ≠ []) (h : w.length ≤ repl.length) (n : Nat) (l : List Char) :
    l.length - n ≤ (replaceFrom [w] repl n l).length := by
  have hpos : 0 < w.length := List.length_pos_iff.mpr hw
  induction l generalizing n with
  | nil => simp
  | cons c cs ih =>
    cases n with
    | succ n => simpa [replaceFrom] using ih n
    | zero =>
      simp only [replaceFrom]
      split
      · rename_i v hv
        obtain rfl : v = w := by simpa using List.mem_of_find?_eq_some hv
        have := ih (v.length - 1)
        simp only [List.length_cons, List.length_append]
        omega
      · simpa using ih 0

/-- A text is left as it is exactly if the word is not in it. -/
theorem replaceFrom_eq_self {l : List Char} (hw : w ≠ []) (hne : repl ≠ w) :
    replaceFrom [w] repl 0 l = l ↔ ¬ w <:+: l := by
  refine ⟨fun h hin => ?_, fun h => replaceFrom_of_absent (by simpa using h)⟩
  obtain ⟨a, b, hl, hr⟩ := replaceFrom_first repl hw hin
  rw [hr, hl, List.append_assoc, List.append_assoc, List.append_cancel_left_eq] at h
  have hlen := congrArg List.length h
  simp only [List.length_append] at hlen
  rcases lt_trichotomy repl.length w.length with hlt | heq | hgt
  · have := length_replaceFrom_le hlt.le 0 b
    omega
  · exact hne (List.append_inj_left h heq)
  · have := le_length_replaceFrom hw hgt.le 0 b
    omega

/-- Two replacements, of which the first keeps lengths and the second does not. -/
theorem replaceFrom_twice_eq_self {v repl' : List Char} {l : List Char} (hw : w ≠ []) (hv : v ≠ [])
    (hlen : repl.length = w.length) (hne : repl ≠ w) (hlen' : repl'.length ≠ v.length) :
    replaceFrom [v] repl' 0 (replaceFrom [w] repl 0 l) = l ↔ ¬ w <:+: l ∧ ¬ v <:+: l := by
  have hne' : repl' ≠ v := fun h => hlen' (congrArg List.length h)
  constructor
  · intro h
    have hsame : (replaceFrom [w] repl 0 l).length = l.length := by
      have := length_replaceFrom_le hlen.le 0 l
      have := le_length_replaceFrom hw hlen.ge 0 l
      omega
    -- a second replacement would change the length
    have hout : ¬ v <:+: replaceFrom [w] repl 0 l := by
      intro hin
      obtain ⟨a, b, hl, hr⟩ := replaceFrom_first repl' hv hin
      rw [h] at hr
      have h₁ := congrArg List.length hl
      have h₂ := congrArg List.length hr
      simp only [List.length_append] at h₁ h₂
      rcases lt_or_gt_of_ne hlen' with hlt | hgt
      · have := length_replaceFrom_le hlt.le 0 b
        omega
      · have := le_length_replaceFrom hv hgt.le 0 b
        omega
    rw [(replaceFrom_eq_self hv hne').mpr hout] at h
    rw [h] at hout
    exact ⟨(replaceFrom_eq_self hw hne).mp h, hout⟩
  · rintro ⟨hw', hv'⟩
    rw [(replaceFrom_eq_self hw hne).mpr hw', (replaceFrom_eq_self hv hne').mpr hv']

end Replace

end DDSRouter
