import Mathlib.Algebra.Group.Int.Defs
import Mathlib.Data.String.Basic
import Mathlib.Data.Prod.Lex
import DDSRouter.Lib.OrdMap

/-!
# Identifiers and topics

The value types that the router passes around, with the comparison operators
of the source. The ordered containers see these operators only: a topic is
looked up by its name and type, a service by its service name alone.

A character of a Lean string stands for one `char` of a `std::string`.
-/
namespace DDSRouter

open WeakOrder

/-- The return codes that the modelled functions give back. -/
inductive ReturnCode where
  | ok | noData | error | notEnabled | preconditionNotMet
  deriving DecidableEq, Repr

structure ParticipantId where
  id : String
  deriving DecidableEq, Repr

namespace ParticipantId

def invalidId : String := "__invalid_ddsrouter_participant__"

def isValidId (tag : String) : Bool := tag ≠ "" && tag ≠ invalidId

def invalid : ParticipantId := ⟨invalidId⟩

/-- The constructor, which stores the invalid id in place of one that cannot be used. -/
def ofName (id : String) : ParticipantId := if isValidId id then ⟨id⟩ else invalid

def isValid (p : ParticipantId) : Bool := isValidId p.id

instance : WeakOrder ParticipantId := ofKey ParticipantId.id

instance : TotalKey ParticipantId where
  eq_of_same {a b} h := by
    simp only [same_iff, lt, decide_eq_false_iff_not, not_lt] at h
    cases a
    cases b
    simp only [mk.injEq]
    exact le_antisymm h.2 h.1

end ParticipantId

/-- The 12 octets of a guid prefix, in network order. -/
abbrev GuidPrefix := BitVec 96

abbrev EntityId := BitVec 32

structure Guid where
  guidPrefix : GuidPrefix
  entityId : EntityId
  deriving DecidableEq, Repr

namespace Guid

def unknown : Guid := ⟨0, 0⟩

instance : WeakOrder Guid :=
  ofKey fun g => toLex (g.guidPrefix.toNat, g.entityId.toNat)

instance : TotalKey Guid where
  eq_of_same {a b} h := by
    simp only [same_iff, lt, decide_eq_false_iff_not, not_lt] at h
    have he := toLex.injective (le_antisymm h.2 h.1)
    simp only [Prod.mk.injEq] at he
    cases a
    cases b
    simp only [mk.injEq]
    exact ⟨BitVec.eq_of_toNat_eq he.1, BitVec.eq_of_toNat_eq he.2⟩

end Guid

abbrev SequenceNumber := Int

instance : WeakOrder SequenceNumber := ofKey id

instance : TotalKey SequenceNumber where
  eq_of_same {a b} h := by
    simp only [same_iff, lt, decide_eq_false_iff_not, not_lt, id] at h
    exact le_antisymm h.2 h.1

structure SampleIdentity where
  writerGuid : Guid
  sequenceNumber : SequenceNumber
  deriving DecidableEq, Repr

/-- The unknown sequence number has high word -1 and low word 0. -/
def SampleIdentity.unknown : SampleIdentity := ⟨Guid.unknown, -(2 ^ 32)⟩

inductive DurabilityKind where
  | volatile | transientLocal | transient | persistent
  deriving DecidableEq, Repr

inductive ReliabilityKind where
  | reliable | bestEffort
  deriving DecidableEq, Repr

inductive OwnershipKind where
  | shared | exclusive
  deriving DecidableEq, Repr

structure TopicQoS where
  durabilityQos : DurabilityKind := .volatile
  reliabilityQos : ReliabilityKind := .bestEffort
  ownershipQos : OwnershipKind := .shared
  usePartitions : Bool := false
  historyDepth : Nat := 1000
  deriving DecidableEq, Repr

def TopicQoS.isReliable (q : TopicQoS) : Bool := q.reliabilityQos = .reliable

def TopicQoS.hasOwnership (q : TopicQoS) : Bool := q.ownershipQos = .exclusive

def TopicQoS.hasPartitions (q : TopicQoS) : Bool := q.usePartitions

structure DdsTopic where
  topicName : String
  typeName : String
  keyed : Bool := false
  topicQos : TopicQoS := {}
  deriving DecidableEq, Repr

namespace DdsTopic

/-- The name decides, the type breaks ties; key and QoS are not compared. -/
def less (a b : DdsTopic) : Bool :=
  if a.topicName = b.topicName then decide (a.typeName < b.typeName)
  else decide (a.topicName < b.topicName)

theorem less_eq_lex (a b : DdsTopic) :
    less a b = decide (toLex (a.topicName, a.typeName) < toLex (b.topicName, b.typeName)) := by
  by_cases h : a.topicName = b.topicName
  · simp [less, h, Prod.Lex.toLex_lt_toLex]
  · simp [less, h, Prod.Lex.toLex_lt_toLex]

instance : WeakOrder DdsTopic where
  lt := less
  irrefl a := by simp [less]
  trans {a b c} hab hbc := by
    rw [less_eq_lex, decide_eq_true_eq] at hab hbc ⊢
    exact hab.trans hbc
  cotrans {a c} hac b := by
    rw [less_eq_lex, decide_eq_true_eq] at hac
    rw [less_eq_lex, less_eq_lex, decide_eq_true_eq, decide_eq_true_eq]
    rcases lt_or_ge (toLex (a.topicName, a.typeName)) (toLex (b.topicName, b.typeName)) with h | h
    · exact .inl h
    · exact .inr (h.trans_lt hac)

/-- `operator ==`, on name and type like `operator <`. -/
def equal (a b : DdsTopic) : Bool := a.topicName = b.topicName && a.typeName = b.typeName

theorem equal_of_same {a b : DdsTopic} (h : same a b = true) : equal a b = true := by
  obtain ⟨hab, hba⟩ := same_iff.mp h
  simp only [lt, less_eq_lex, decide_eq_false_iff_not, not_lt] at hab hba
  have heq := toLex.injective (le_antisymm hba hab)
  simpa [equal] using heq

theorem same_iff_names {a b : DdsTopic} :
    same a b = true ↔ (a.topicName, a.typeName) = (b.topicName, b.typeName) := by
  constructor
  · intro h
    simpa [equal] using equal_of_same h
  · intro h
    simp [same_iff, lt, less_eq_lex, h]

/-- The first message of the checks, or none when the topic is valid. -/
def validityError (t : DdsTopic) : Option String :=
  if t.topicName = "" then some "Topic name could not be empty. "
  else if t.typeName = "" then some "Topic type name could not be empty. "
  else if t.topicName.toList.contains '*' then some "Topic name could not contain * . "
  else if t.typeName.toList.contains '*' then some "Topic type name could not contain * . "
  else none

def isValid (t : DdsTopic) : Bool := (validityError t).isNone

end DdsTopic

/-! Searching and replacing in strings, as the standard library does it. -/

/-- `std::string::npos`, the largest `size_t`. -/
def npos : Nat := 2 ^ 64 - 1

def findFrom (pat : List Char) : List Char → Nat → Option Nat
  | [], i => if pat.isEmpty then some i else none
  | c :: cs, i => if pat.isPrefixOf (c :: cs) then some i else findFrom pat cs (i + 1)

/-- Position of the first occurrence of `pat`. -/
def find (s pat : String) : Nat := (findFrom pat.toList s.toList 0).getD npos

def rfindFrom (pat : List Char) : List Char → Nat → Option Nat
  | [], i => if pat.isEmpty then some i else none
  | c :: cs, i =>
    match rfindFrom pat cs (i + 1) with
    | some j => some j
    | none => if pat.isPrefixOf (c :: cs) then some i else none

/-- Position of the last occurrence of `pat`. -/
def rfind (s pat : String) : Nat := (rfindFrom pat.toList s.toList 0).getD npos

/-- Addition of `size_t` values. -/
def sizeAdd (a b : Nat) : Nat := (a + b) % 2 ^ 64

/-- Replace every match of an alternation of literal words, scanning from the
left; the counter skips the rest of the word that was just matched. -/
def replaceFrom (words : List (List Char)) (repl : List Char) : Nat → List Char → List Char
  | _, [] => []
  | n + 1, _ :: cs => replaceFrom words repl n cs
  | 0, c :: cs =>
    match words.find? fun w => w.isPrefixOf (c :: cs) with
    | some w => repl ++ replaceFrom words repl (w.length - 1) cs
    | none => c :: replaceFrom words repl 0 cs

/-- `std::regex_replace` for a regex that is an alternation of literal words. -/
def regexReplace (s : String) (words : List String) (repl : String) : String :=
  String.ofList (replaceFrom (words.map String.toList) repl.toList 0 s.toList)

structure RPCTopic where
  serviceName : String
  requestTopic : DdsTopic
  replyTopic : DdsTopic
  deriving DecidableEq, Repr

namespace RPCTopic

def requestPrefixStr : String := "rq/"
def replyPrefixStr : String := "rr/"
def requestStr : String := "Request"
def replyStr : String := "Reply"
def responseStr : String := "Response"

/-- The shared form of the two classifiers: prefix and suffix of the name, and
the word that stands one character before the end of the type. -/
def isTopicOf (namePrefix nameSuffix typeWord : String) (t : DdsTopic) : Bool :=
  find t.topicName namePrefix = 0 &&
  sizeAdd (rfind t.topicName nameSuffix) nameSuffix.length = t.topicName.length &&
  sizeAdd (sizeAdd (rfind t.typeName typeWord) typeWord.length) 1 = t.typeName.length

def isRequestTopic (t : DdsTopic) : Bool := isTopicOf requestPrefixStr requestStr requestStr t

def isReplyTopic (t : DdsTopic) : Bool := isTopicOf replyPrefixStr replyStr responseStr t

def isServiceTopic (t : DdsTopic) : Bool := isRequestTopic t || isReplyTopic t

/-- The service that a request or a reply topic belongs to. Both topics take
the QoS of the topic found; any other topic is a programming error there. -/
def ofTopic (t : DdsTopic) : RPCTopic :=
  if isRequestTopic t then
    { serviceName := regexReplace t.topicName [requestPrefixStr, requestStr] ""
      requestTopic := t
      replyTopic := { t with
        topicName := regexReplace (regexReplace t.topicName [requestPrefixStr] replyPrefixStr)
          [requestStr] replyStr
        typeName := regexReplace t.typeName [requestStr] responseStr } }
  else if isReplyTopic t then
    { serviceName := regexReplace t.topicName [replyPrefixStr, replyStr] ""
      replyTopic := t
      requestTopic := { t with
        topicName := regexReplace (regexReplace t.topicName [replyPrefixStr] requestPrefixStr)
          [replyStr] requestStr
        typeName := regexReplace t.typeName [responseStr] requestStr } }
  else
    { serviceName := ""
      requestTopic := { topicName := "", typeName := "", topicQos := t.topicQos }
      replyTopic := { topicName := "", typeName := "", topicQos := t.topicQos } }

/-- Services are compared by name alone. -/
instance : WeakOrder RPCTopic := ofKey RPCTopic.serviceName

theorem same_iff_serviceName {a b : RPCTopic} :
    same a b = true ↔ a.serviceName = b.serviceName := by
  simp only [same_iff, lt, decide_eq_false_iff_not, not_lt]
  exact ⟨fun h => le_antisymm h.2 h.1, fun h => ⟨h.ge, h.le⟩⟩

end RPCTopic

end DDSRouter
