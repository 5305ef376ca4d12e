import DDSRouter.ServerBookkeeping
import DDSRouter.Text

/-!
# The topics of a service

A service has a request and a reply topic, told by the words in their names and
types. The words are looked for and rewritten wherever they stand: the
classifiers take the position of a word that is not there for a position, and
the rewriting also changes the words that belong to the name of the service.
-/
namespace DDSRouter

theorem exists_eq_append_iff {p s : String} : (∃ a, s = p ++ a) ↔ p.toList <+: s.toList := by
  constructor
  · rintro ⟨a, rfl⟩
    exact ⟨a.toList, by simp⟩
  · rintro ⟨a, ha⟩
    exact ⟨String.ofList a, by rw [← String.toList_inj]; simp [ha]⟩

theorem exists_append_eq_iff {w s : String} : (∃ a, s = a ++ w) ↔ w.toList <:+ s.toList := by
  constructor
  · rintro ⟨a, rfl⟩
    exact ⟨a.toList, by simp⟩
  · rintro ⟨a, ha⟩
    exact ⟨String.ofList a, by rw [← String.toList_inj]; simp [ha]⟩

theorem exists_append_singleton_iff {w s : String} :
    (∃ b, ∃ c : Char, s = b ++ w ++ String.singleton c) ↔ ∃ b c, s.toList = b ++ w.toList ++ [c] := by
  constructor
  · rintro ⟨b, c, rfl⟩
    exact ⟨b.toList, c, by simp⟩
  · rintro ⟨b, c, h⟩
    exact ⟨String.ofList b, c, by rw [← String.toList_inj]; simp [h]⟩

namespace RPCTopic

/-! ### The classifiers -/

/-- The name begins with the prefix and ends with the suffix, and the word stands in
the type one character before its end. -/
structure InGrammar (namePrefix nameSuffix typeWord : String) (t : DdsTopic) : Prop where
  begins : ∃ a, t.topicName = namePrefix ++ a
  ends : ∃ a, t.topicName = a ++ nameSuffix
  type : ∃ b, ∃ c : Char, t.typeName = b ++ typeWord ++ String.singleton c

/-- The name is one character shorter than its suffix: `npos` plus the length of the
suffix is the length of the name. -/
def ShortName (nameSuffix : String) (t : DdsTopic) : Prop := t.topicName.length + 1 = nameSuffix.length

instance (nameSuffix : String) (t : DdsTopic) : Decidable (ShortName nameSuffix t) :=
  inferInstanceAs (Decidable (t.topicName.length + 1 = nameSuffix.length))

/-- The type is as long as the word and is not the word. -/
def OtherType (typeWord : String) (t : DdsTopic) : Prop := t.typeName.length = typeWord.length ∧ t.typeName ≠ typeWord

/-- The prefix is there, and name or type passes by the position of a word that is not. -/
def Wraps (namePrefix nameSuffix typeWord : String) (t : DdsTopic) : Prop :=
  (∃ a, t.topicName = namePrefix ++ a) ∧
    (ShortName nameSuffix t ∧
        ((∃ b, ∃ c : Char, t.typeName = b ++ typeWord ++ String.singleton c) ∨ OtherType typeWord t) ∨
      (∃ a, t.topicName = a ++ nameSuffix) ∧ OtherType typeWord t)

section Classifier

variable {p s w : String} {t : DdsTopic}

/-- What the classifier looks at, with lengths that are those of strings. -/
theorem isTopicOf_iff (hs : 0 < s.length) (hsn : s.length < npos) (hw : 1 < w.length) (hwn : w.length + 1 < npos)
    (hself : EndsBefore w.toList w.toList) (hn : t.topicName.length < npos) (ht : t.typeName.length < npos) :
    isTopicOf p s w t = true ↔ (∃ a, t.topicName = p ++ a) ∧
      ((∃ a, t.topicName = a ++ s) ∨ ShortName s t) ∧
      ((∃ b, ∃ c : Char, t.typeName = b ++ w ++ String.singleton c) ∨ OtherType w t) := by
  simp only [isTopicOf, Bool.and_eq_true, decide_eq_true_eq, and_assoc]
  rw [find_eq_zero, rfind_at_end hn hs hsn, rfind_before_last ht hw hwn hself, exists_eq_append_iff,
    exists_append_eq_iff, exists_append_singleton_iff]
  rfl

theorem not_shortName_of_ends (h : ∃ a, t.topicName = a ++ s) : ¬ ShortName s t := by
  obtain ⟨a, ha⟩ := h
  intro hshort
  simp only [ShortName, ha, String.length_append] at hshort
  omega

theorem not_otherType_of_type (h : ∃ b, ∃ c : Char, t.typeName = b ++ w ++ String.singleton c) : ¬ OtherType w t := by
  obtain ⟨b, c, hbc⟩ := h
  rintro ⟨hlen, -⟩
  simp only [hbc, String.length_append, String.length_singleton] at hlen
  omega

theorem accepts_iff_not_wraps (hs : 0 < s.length) (hsn : s.length < npos) (hw : 1 < w.length)
    (hwn : w.length + 1 < npos) (hself : EndsBefore w.toList w.toList) (hn : t.topicName.length < npos)
    (ht : t.typeName.length < npos) : (isTopicOf p s w t = true ↔ InGrammar p s w t) ↔ ¬ Wraps p s w t := by
  have haccept := isTopicOf_iff (p := p) hs hsn hw hwn hself hn ht
  constructor
  · rintro hiff ⟨hbegins, ⟨hshort, htype⟩ | ⟨hends, hother⟩⟩
    · have hin := hiff.mp (haccept.mpr ⟨hbegins, .inr hshort, htype⟩)
      exact not_shortName_of_ends hin.ends hshort
    · have hin := hiff.mp (haccept.mpr ⟨hbegins, .inl hends, .inr hother⟩)
      exact not_otherType_of_type hin.type hother
  · intro hnot
    rw [haccept]
    constructor
    · rintro ⟨hbegins, hends | hshort, htype⟩
      · rcases htype with htype | hother
        · exact ⟨hbegins, hends, htype⟩
        · exact absurd ⟨hbegins, .inr ⟨hends, hother⟩⟩ hnot
      · exact absurd ⟨hbegins, .inl ⟨hshort, htype⟩⟩ hnot
    · rintro ⟨hbegins, hends, htype⟩
      exact ⟨hbegins, .inl hends, .inl htype⟩

end Classifier

/-- No name has both prefixes. -/
theorem not_request_and_reply (t : DdsTopic) : ¬ (isRequestTopic t = true ∧ isReplyTopic t = true) := by
  rintro ⟨hreq, hrep⟩
  simp only [isRequestTopic, isReplyTopic, isTopicOf, Bool.and_eq_true, decide_eq_true_eq] at hreq hrep
  obtain ⟨a, ha⟩ := find_eq_zero.mp hreq.1.1
  obtain ⟨b, hb⟩ := find_eq_zero.mp hrep.1.1
  have heq := List.append_inj_left (ha.trans hb.symm) (by decide)
  exact absurd heq (by decide)

/-- The classifiers accept exactly their grammar where neither the name nor the type
has the length at which the position of an absent word passes. -/
theorem classifiers_exact_iff_not_wraps (t : DdsTopic) (hn : t.topicName.length < 2 ^ 64 - 16)
    (ht : t.typeName.length < 2 ^ 64 - 16) :
    ((isRequestTopic t = true ↔ InGrammar "rq/" "Request" "Request" t) ∧
      (isReplyTopic t = true ↔ InGrammar "rr/" "Reply" "Response" t) ∧
      ¬ (isRequestTopic t = true ∧ isReplyTopic t = true)) ↔
    ¬ Wraps "rq/" "Request" "Request" t ∧ ¬ Wraps "rr/" "Reply" "Response" t := by
  have hn' : t.topicName.length < npos := by simp only [npos]; omega
  have ht' : t.typeName.length < npos := by simp only [npos]; omega
  have hreq : (isRequestTopic t = true ↔ InGrammar "rq/" "Request" "Request" t) ↔ _ :=
    accepts_iff_not_wraps (p := "rq/") (s := "Request") (w := "Request") (by decide) (by decide) (by decide)
      (by decide) (by decide) hn' ht'
  have hrep : (isReplyTopic t = true ↔ InGrammar "rr/" "Reply" "Response" t) ↔ _ :=
    accepts_iff_not_wraps (p := "rr/") (s := "Reply") (w := "Response") (by decide) (by decide) (by decide)
      (by decide) (by decide) hn' ht'
  rw [hreq, hrep]
  constructor
  · rintro ⟨h₁, h₂, -⟩
    exact ⟨h₁, h₂⟩
  · rintro ⟨h₁, h₂⟩
    exact ⟨h₁, h₂, not_request_and_reply t⟩

/-- A name of six characters that does not end in "Request". -/
def shortNamed : DdsTopic := { topicName := "rq/abc", typeName := "pkg_Request_" }

theorem shortNamed_accepted :
    ¬ ∀ t : DdsTopic, t.topicName.length < 2 ^ 64 - 16 → t.typeName.length < 2 ^ 64 - 16 →
      (isRequestTopic t = true ↔ InGrammar "rq/" "Request" "Request" t) ∧
      (isReplyTopic t = true ↔ InGrammar "rr/" "Reply" "Response" t) ∧
      ¬ (isRequestTopic t = true ∧ isReplyTopic t = true) := by
  intro h
  have hin := (h shortNamed (by decide) (by decide)).1.mp (by decide)
  obtain ⟨a, ha⟩ := hin.ends
  have hlen := congrArg String.length ha
  rw [String.length_append] at hlen
  have : shortNamed.topicName.length = 6 := by decide
  have : "Request".length = 7 := by decide
  omega

theorem addTwoInts_classified :
    (isRequestTopic Router.addTwoInts = true ↔ InGrammar "rq/" "Request" "Request" Router.addTwoInts) ∧
    (isReplyTopic Router.addTwoInts = true ↔ InGrammar "rr/" "Reply" "Response" Router.addTwoInts) ∧
    ¬ (isRequestTopic Router.addTwoInts = true ∧ isReplyTopic Router.addTwoInts = true) := by
  refine (classifiers_exact_iff_not_wraps Router.addTwoInts (by decide) (by decide)).mpr ⟨?_, ?_⟩
  · rintro ⟨-, ⟨hshort, -⟩ | ⟨-, hlen, -⟩⟩
    · exact absurd hshort (by decide)
    · exact absurd hlen (by decide)
  · rintro ⟨-, ⟨hshort, -⟩ | ⟨-, hlen, -⟩⟩
    · exact absurd hshort (by decide)
    · exact absurd hlen (by decide)

/-! ### The two views of a service -/

def requestTopicOf (service type : String) (keyed : Bool) (qos : TopicQoS) : DdsTopic :=
  { topicName := "rq/" ++ service ++ "Request", typeName := type ++ "_Request_", keyed := keyed, topicQos := qos }

def replyTopicOf (service type : String) (keyed : Bool) (qos : TopicQoS) : DdsTopic :=
  { topicName := "rr/" ++ service ++ "Reply", typeName := type ++ "_Response_", keyed := keyed, topicQos := qos }

section Rewriting

/-- The word stands somewhere in the text. -/
def Occurs (word text : String) : Prop := word.toList <:+: text.toList

instance (word text : String) : Decidable (Occurs word text) :=
  inferInstanceAs (Decidable (word.toList <:+: text.toList))

variable {p p' s s' : String}

/-- Prefix and suffix of a name are rewritten, and the words inside it as well. -/
theorem rewritten_name (hp : p.toList ≠ []) (hs : s.toList ≠ []) (hlen : p'.toList.length = p.toList.length)
    (hne : p'.toList ≠ p.toList) (hlen' : s'.toList.length ≠ s.toList.length)
    (hps : EndsBefore p.toList s.toList) (hsp : StartsAfter s.toList p'.toList) (hss : EndsBefore s.toList s.toList)
    (hpin : ¬ Occurs p s) (hsin : ¬ Occurs s p') (n : String) :
    regexReplace (regexReplace (p ++ n ++ s) [p] p') [s] s' = p' ++ n ++ s' ↔ ¬ Occurs p n ∧ ¬ Occurs s n := by
  have hpre : replaceFrom [p.toList] p'.toList 0 (p.toList ++ n.toList ++ s.toList) =
      p'.toList ++ replaceFrom [p.toList] p'.toList 0 n.toList ++ s.toList := by
    have hend : replaceFrom [p.toList] p'.toList 0 s.toList = s.toList :=
      replaceFrom_of_absent (by simpa [Occurs] using hpin)
    rw [List.append_assoc, replaceFrom_word hp (by simp), replaceFrom_append _ (Nat.zero_le _), hend,
      List.append_assoc]
    simpa using not_straddles_of_endsBefore hps
  have hsuf : ∀ l, replaceFrom [s.toList] s'.toList 0 (p'.toList ++ l ++ s.toList) =
      p'.toList ++ replaceFrom [s.toList] s'.toList 0 l ++ s'.toList := by
    intro l
    have hword : replaceFrom [s.toList] s'.toList 0 s.toList = s'.toList := by
      have h : replaceFrom [s.toList] s'.toList 0 (s.toList ++ []) = _ := replaceFrom_word hs (by simp)
      simpa [replaceFrom] using h
    have hbegin : replaceFrom [s.toList] s'.toList 0 p'.toList = p'.toList :=
      replaceFrom_of_absent (by simpa [Occurs] using hsin)
    rw [List.append_assoc, replaceFrom_append _ (Nat.zero_le _), hbegin, replaceFrom_append _ (Nat.zero_le _), hword,
      List.append_assoc]
    · simpa using not_straddles_of_endsBefore hss
    · simpa using not_straddles_of_startsAfter hsp
  rw [← String.toList_inj]
  simp only [regexReplace, String.toList_ofList, String.toList_append, List.map_cons, List.map_nil, hpre, hsuf]
  rw [List.append_left_inj, List.append_right_inj]
  exact replaceFrom_twice_eq_self hp hs hlen hne hlen'

/-- The word in the fixed end of a type is rewritten, and the words before it as well. -/
theorem rewritten_type {w w' e e' : String} (hw : w.toList ≠ []) (hne : w'.toList ≠ w.toList)
    (hwe : EndsBefore w.toList e.toList) (he : replaceFrom [w.toList] w'.toList 0 e.toList = e'.toList) (T : String) :
    regexReplace (T ++ e) [w] w' = T ++ e' ↔ ¬ Occurs w T := by
  rw [← String.toList_inj]
  simp only [regexReplace, String.toList_ofList, String.toList_append, List.map_cons, List.map_nil]
  rw [replaceFrom_append _ (Nat.zero_le _), he, List.append_left_inj]
  · exact replaceFrom_eq_self hw hne
  · simpa using not_straddles_of_endsBefore hwe

/-- Without the words inside, what is left of the name is the service. -/
theorem erased_name (hp : p.toList ≠ []) (hs : s.toList ≠ []) (hps : EndsBefore p.toList s.toList)
    (hss : EndsBefore s.toList s.toList) (hpin : ¬ p.toList <+: s.toList) {n : String} (hpn : ¬ Occurs p n)
    (hsn : ¬ Occurs s n) : regexReplace (p ++ n ++ s) [p, s] "" = n := by
  have hend : replaceFrom [p.toList, s.toList] [] 0 s.toList = [] := by
    have h : replaceFrom [p.toList, s.toList] [] 0 (s.toList ++ []) = _ := replaceFrom_word hs (by simp [hpin])
    simpa [replaceFrom] using h
  rw [← String.toList_inj]
  simp only [regexReplace, String.toList_ofList, String.toList_append, List.map_cons, List.map_nil]
  rw [List.append_assoc, replaceFrom_word hp (by simp), replaceFrom_append _ (Nat.zero_le _),
    replaceFrom_of_absent (by simpa using ⟨hpn, hsn⟩)]
  · simp [hend]
  · simpa using ⟨not_straddles_of_endsBefore hps, not_straddles_of_endsBefore hss⟩

end Rewriting

section Views

open WeakOrder

variable {n T : String}

theorem isRequestTopic_requestTopicOf (keyed : Bool) (qos : TopicQoS) (hn : n.length + 10 < npos)
    (hT : T.length + 10 < npos) : isRequestTopic (requestTopicOf n T keyed qos) = true := by
  refine (isTopicOf_iff (by decide) (by decide) (by decide) (by decide) (by decide) ?_ ?_).mpr
    ⟨⟨n ++ "Request", String.append_assoc⟩, .inl ⟨"rq/" ++ n, rfl⟩, .inl ⟨T ++ "_", '_', ?_⟩⟩
  · have : "rq/".length + "Request".length = 10 := by decide
    simp only [requestTopicOf, String.length_append]
    omega
  · have : "_Request_".length = 9 := by decide
    simp only [requestTopicOf, String.length_append]
    omega
  · rw [← String.toList_inj]
    simp [requestTopicOf, requestStr]

theorem isReplyTopic_replyTopicOf (keyed : Bool) (qos : TopicQoS) (hn : n.length + 10 < npos)
    (hT : T.length + 10 < npos) : isReplyTopic (replyTopicOf n T keyed qos) = true := by
  refine (isTopicOf_iff (by decide) (by decide) (by decide) (by decide) (by decide) ?_ ?_).mpr
    ⟨⟨n ++ "Reply", String.append_assoc⟩, .inl ⟨"rr/" ++ n, rfl⟩, .inl ⟨T ++ "_", '_', ?_⟩⟩
  · have : "rr/".length + "Reply".length = 8 := by decide
    simp only [replyTopicOf, String.length_append]
    omega
  · have : "_Response_".length = 10 := by decide
    simp only [replyTopicOf, String.length_append]
    omega
  · rw [← String.toList_inj]
    simp [replyTopicOf, responseStr]

/-- The request and the reply topic of a service lead to the same service. -/
structure ViewsAgree (n T : String) (keyed : Bool) (qos qos' : TopicQoS) : Prop where
  reply : (ofTopic (requestTopicOf n T keyed qos)).replyTopic.topicName = (replyTopicOf n T keyed qos').topicName ∧
    (ofTopic (requestTopicOf n T keyed qos)).replyTopic.typeName = (replyTopicOf n T keyed qos').typeName
  request : (ofTopic (replyTopicOf n T keyed qos')).requestTopic.topicName = (requestTopicOf n T keyed qos).topicName ∧
    (ofTopic (replyTopicOf n T keyed qos')).requestTopic.typeName = (requestTopicOf n T keyed qos).typeName
  service : (ofTopic (requestTopicOf n T keyed qos)).serviceName = (ofTopic (replyTopicOf n T keyed qos')).serviceName
  notLess : lt (ofTopic (requestTopicOf n T keyed qos)) (ofTopic (replyTopicOf n T keyed qos')) = false ∧
    lt (ofTopic (replyTopicOf n T keyed qos')) (ofTopic (requestTopicOf n T keyed qos)) = false
  entry : ∀ s : Router.State, s.currentServices.find (ofTopic (requestTopicOf n T keyed qos)) =
      s.currentServices.find (ofTopic (replyTopicOf n T keyed qos')) ∧
    s.rpcBridges.find (ofTopic (requestTopicOf n T keyed qos)) =
      s.rpcBridges.find (ofTopic (replyTopicOf n T keyed qos'))

/-- The two views agree exactly if the name of the service holds none of the words that
are rewritten in names, and the type none of those rewritten in types. -/
theorem views_agree_iff (n T : String) (keyed : Bool) (qos qos' : TopicQoS) (hn : n.length + 10 < npos)
    (hT : T.length + 10 < npos) :
    ViewsAgree n T keyed qos qos' ↔
      (¬ Occurs "rq/" n ∧ ¬ Occurs "Request" n ∧ ¬ Occurs "rr/" n ∧ ¬ Occurs "Reply" n) ∧
        ¬ Occurs "Request" T ∧ ¬ Occurs "Response" T := by
  have hreq := isRequestTopic_requestTopicOf keyed qos hn hT
  have hrep := isReplyTopic_replyTopicOf keyed qos' hn hT
  have hnot : isRequestTopic (replyTopicOf n T keyed qos') = false := by
    rw [Bool.eq_false_iff]
    exact fun h => not_request_and_reply _ ⟨h, hrep⟩
  have hname : (ofTopic (requestTopicOf n T keyed qos)).replyTopic.topicName = "rr/" ++ n ++ "Reply" ↔
      ¬ Occurs "rq/" n ∧ ¬ Occurs "Request" n := by
    rw [ofTopic, if_pos hreq]
    exact rewritten_name (by decide) (by decide) (by decide) (by decide) (by decide) (by decide) (by decide)
      (by decide) (by decide) (by decide) n
  have htype : (ofTopic (requestTopicOf n T keyed qos)).replyTopic.typeName = T ++ "_Response_" ↔
      ¬ Occurs "Request" T := by
    rw [ofTopic, if_pos hreq]
    exact rewritten_type (e := "_Request_") (by decide) (by decide) (by decide) (by decide) T
  have hname' : (ofTopic (replyTopicOf n T keyed qos')).requestTopic.topicName = "rq/" ++ n ++ "Request" ↔
      ¬ Occurs "rr/" n ∧ ¬ Occurs "Reply" n := by
    rw [ofTopic, if_neg (by simp [hnot]), if_pos hrep]
    exact rewritten_name (by decide) (by decide) (by decide) (by decide) (by decide) (by decide) (by decide)
      (by decide) (by decide) (by decide) n
  have htype' : (ofTopic (replyTopicOf n T keyed qos')).requestTopic.typeName = T ++ "_Request_" ↔
      ¬ Occurs "Response" T := by
    rw [ofTopic, if_neg (by simp [hnot]), if_pos hrep]
    exact rewritten_type (e := "_Response_") (by decide) (by decide) (by decide) (by decide) T
  constructor
  · intro h
    obtain ⟨hrq, hRequest⟩ := hname.mp h.reply.1
    obtain ⟨hrr, hReply⟩ := hname'.mp h.request.1
    exact ⟨⟨hrq, hRequest, hrr, hReply⟩, htype.mp h.reply.2, htype'.mp h.request.2⟩
  · rintro ⟨⟨hrq, hRequest, hrr, hReply⟩, hTReq, hTRes⟩
    have hservice : (ofTopic (requestTopicOf n T keyed qos)).serviceName =
        (ofTopic (replyTopicOf n T keyed qos')).serviceName := by
      have h₁ : (ofTopic (requestTopicOf n T keyed qos)).serviceName = n := by
        rw [ofTopic, if_pos hreq]
        exact erased_name (by decide) (by decide) (by decide) (by decide) (by decide) hrq hRequest
      have h₂ : (ofTopic (replyTopicOf n T keyed qos')).serviceName = n := by
        rw [ofTopic, if_neg (by simp [hnot]), if_pos hrep]
        exact erased_name (by decide) (by decide) (by decide) (by decide) (by decide) hrr hReply
      rw [h₁, h₂]
    have hsame := same_iff_serviceName.mpr hservice
    exact
      { reply := ⟨hname.mpr ⟨hrq, hRequest⟩, htype.mpr hTReq⟩
        request := ⟨hname'.mpr ⟨hrr, hReply⟩, htype'.mpr hTRes⟩
        service := hservice
        notLess := same_iff.mp hsame
        entry := fun s => ⟨OrdMap.find_congr hsame _, OrdMap.find_congr hsame _⟩ }

theorem views_agree_addTwoInts : ViewsAgree "add_two_ints" "AddTwoInts" false {} {} :=
  (views_agree_iff "add_two_ints" "AddTwoInts" false {} {} (by decide) (by decide)).mpr
    ⟨⟨by decide, by decide, by decide, by decide⟩, by decide, by decide⟩

/-- The service of sending a reply. -/
theorem views_of_sendReply_differ :
    ¬ ∀ (n T : String) (keyed : Bool) (qos qos' : TopicQoS), n.length + 10 < npos → T.length + 10 < npos →
      ViewsAgree n T keyed qos qos' := by
  intro h
  have hreq := (h "sendReply" "Send" false {} {} (by decide) (by decide)).request.1
  revert hreq
  decide

end Views

end RPCTopic

end DDSRouter
