import DDSRouter.RPCBridge
import DDSRouter.Lib.BoundedQueue

/-!
# A registry as a queue with a limit

The sequence numbers of the requests that a proxy client writes go up, so the
entry with the lowest number is the oldest one: a `ServiceRegistry` is a queue of
the requests that wait for their reply, which loses the oldest one when an
addition brings it to its limit.
-/
namespace DDSRouter

open WeakOrder BoundedQueue

namespace ServiceRegistry

/-- An operation on a registry. -/
abbrev RegistryOp := Op SequenceNumber (ParticipantId × SampleIdentity)

/-- The registry after an operation; `get` only looks. -/
def perform (r : ServiceRegistry) : RegistryOp → ServiceRegistry
  | .add idx entry => r.add idx entry
  | .get _ => r
  | .erase idx => r.erase idx

/-- A new registry after the operations. -/
def registryAfter (ops : List RegistryOp) : ServiceRegistry := ops.foldl perform {}

/-- The queue that the registry stands for. -/
def queueAfter (ops : List RegistryOp) : State SequenceNumber (ParticipantId × SampleIdentity) :=
  after defaultMaxEntries ops

variable {r : ServiceRegistry} {q : List (SequenceNumber × (ParticipantId × SampleIdentity))}

theorem lt_iff {a b : SequenceNumber} : lt a b = true ↔ a < b := decide_eq_true_iff

theorem entries_add (h : r.registry.entries = q) {idx : SequenceNumber} (hidx : ∀ x ∈ q, x.1 < idx)
    (entry : ParticipantId × SampleIdentity) :
    (r.add idx entry).registry.entries = push defaultMaxEntries q (idx, entry) := by
  have hgreatest : ∀ e ∈ r.registry.entries, lt e.1 idx = true := by
    intro e he
    rw [lt_iff]
    exact hidx e (h ▸ he)
  have habsent : r.registry.contains idx = false := by
    rw [OrdMap.contains, OrdMap.find_none_of_greatest hgreatest, Option.isSome_none]
  have hset := OrdMap.entries_set_greatest entry hgreatest
  rw [h] at hset
  simp only [add, habsent, Bool.false_eq_true, if_false, OrdMap.size, hset, push]
  split
  · exact congrArg List.tail hset
  · exact hset

theorem entries_erase (h : r.registry.entries = q) (idx : SequenceNumber) :
    (r.erase idx).registry.entries = q.filter fun x => x.1 ≠ idx := by
  unfold erase
  split
  · have hfilter : (fun x : SequenceNumber × (ParticipantId × SampleIdentity) => !same idx x.1) =
        fun x => decide (x.1 ≠ idx) := by
      funext x
      rw [Bool.eq_iff_iff, Bool.not_eq_true', ← Bool.not_eq_true, same_iff_eq, decide_eq_true_iff, ne_comm]
    have herase : (r.registry.erase idx).entries = r.registry.entries.filter fun x => !same idx x.1 := rfl
    rw [herase, h, hfilter]
  · rename_i habsent
    rw [h, eq_comm, List.filter_eq_self]
    intro x hx
    rw [decide_eq_true_iff]
    rintro rfl
    apply habsent
    rw [OrdMap.contains, OrdMap.find_of_mem (h ▸ hx), Option.isSome_some]

/-- The entries of the registry in their order are the queue. -/
theorem entries_registryAfter {ops : List RegistryOp} (h : Increasing ops) :
    (registryAfter ops).registry.entries = (queueAfter ops).live := by
  induction ops using List.reverseRecOn with
  | nil => rfl
  | append_singleton ops op ih =>
    obtain ⟨hops, hop⟩ := increasing_of_concat h
    have hinv := inv_after defaultMaxEntries hops
    have hafter : registryAfter (ops ++ [op]) = (registryAfter ops).perform op := by
      rw [registryAfter, List.foldl_append, List.foldl_cons, List.foldl_nil, registryAfter]
    rw [hafter, queueAfter, after_concat]
    cases op with
    | add idx entry =>
      refine entries_add (ih hops) (fun x hx => ?_) entry
      exact hop idx rfl x.1 (hinv.known x (List.mem_append_left _ hx))
    | get idx => exact ih hops
    | erase idx => exact entries_erase (ih hops) idx

/-- What `get` gives in terms of the entries. -/
theorem get_of_mem {idx : SequenceNumber} {entry : ParticipantId × SampleIdentity}
    (h : (idx, entry) ∈ r.registry.entries) : r.get idx = entry := by
  rw [get, OrdMap.find_of_mem h, Option.getD_some]

theorem get_of_not_mem {idx : SequenceNumber} (h : ∀ entry, (idx, entry) ∉ r.registry.entries) :
    (r.get idx).1.isValid = false := by
  cases hf : r.registry.find idx with
  | none =>
    rw [get, hf, Option.getD_none]
    decide
  | some entry =>
    obtain ⟨idx', hs, hm⟩ := OrdMap.mem_of_find hf
    rw [← same_iff_eq.mp hs] at hm
    exact absurd hm (h entry)

/-- The registry after the operations is the queue: what it holds, what `get`
answers, and when an entry is lost. -/
structure BehavesAsQueue (ops : List RegistryOp) : Prop where
  entries : (registryAfter ops).registry.entries = (queueAfter ops).live
  size : (registryAfter ops).registry.size ≤ defaultMaxEntries - 1
  live : ∀ s e, (s, e) ∈ (queueAfter ops).live ↔ Current ops s e ∧ (s, e) ∉ (queueAfter ops).dropped
  present : ∀ s e, (s, e) ∈ (queueAfter ops).live → (registryAfter ops).get s = e
  absent : ∀ s, (∀ e, (s, e) ∉ (queueAfter ops).live) → ((registryAfter ops).get s).1.isValid = false
  found : ∀ s e, e.1.isValid = true →
    ((registryAfter ops).get s = e ↔ Current ops s e ∧ (s, e) ∉ (queueAfter ops).dropped)
  dropped : ∀ earlier op x, ops = earlier ++ [op] → drops defaultMaxEntries (queueAfter earlier).live op = some x →
    (queueAfter ops).live.length ≥ defaultMaxEntries - 1 ∧ ∀ y ∈ (queueAfter ops).live, x.1 < y.1

/-- A registry to which requests are added with increasing numbers, whatever is
looked up and erased in between, is a queue with a limit after every operation. -/
theorem behavesAsQueue_of_increasing (ops : List RegistryOp) (h : Increasing ops) : BehavesAsQueue ops := by
  have hentries := entries_registryAfter h
  have hlive : ∀ s e, (s, e) ∈ (queueAfter ops).live ↔ Current ops s e ∧ (s, e) ∉ (queueAfter ops).dropped :=
    (inv_after defaultMaxEntries h).exact
  refine ⟨hentries, ?_, hlive, fun s e hmem => ?_, fun s habs => ?_, fun s e hv => ?_, ?_⟩
  · rw [OrdMap.size, hentries]
    exact Nat.le_sub_one_of_lt (length_after_lt (by decide) ops)
  · exact get_of_mem (hentries ▸ hmem)
  · exact get_of_not_mem (hentries ▸ habs)
  · rw [← hlive]
    constructor
    · intro hget
      -- a valid participant comes from an entry
      have hfind := find_of_get (hget ▸ hv)
      obtain ⟨s', hs, hm⟩ := OrdMap.mem_of_find hfind
      rw [← same_iff_eq.mp hs, hget, hentries] at hm
      exact hm
    · intro hmem
      exact get_of_mem (hentries ▸ hmem)
  · rintro earlier op x rfl hx
    obtain ⟨hlen, hbefore⟩ := drops_oldest h hx
    exact ⟨hlen.ge, hbefore⟩

theorem behavesAsQueue_example :
    BehavesAsQueue [.add 1 (⟨"a"⟩, SampleIdentity.unknown), .get 1, .erase 1, .add 2 (⟨"b"⟩, SampleIdentity.unknown)] :=
  behavesAsQueue_of_increasing _ (by unfold Increasing; decide)

end ServiceRegistry

end DDSRouter
