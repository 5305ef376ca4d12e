import DDSRouter.LocatorTransports
import DDSRouter.Lib.Runs
import Mathlib.Data.List.Forall2

/-!
# Transports of the listening addresses

Every TCP address that is listened on has a transport, and TCPv4 addresses with
one WAN address share theirs. The search for the transport to share ends only if
there is no transport yet or the first one is the one that is looked for. Where
it ends there is one TCPv4 transport at most, with the ports of all addresses.
-/
namespace DDSRouter.Configuration

open Outcome Runs

variable {dds : FastDds} {tls : TlsConfiguration}

/-! ### The order of the transports -/

/-- The WAN addresses of the transports, where they have one. -/
def shape (ts : List Transport) : List (Option String) :=
  ts.map fun t => match t with
    | .tcpv4 wan _ => some wan
    | _ => none

/-- What an address does to these; `none` where the search does not end. -/
def next (wan : String → String) (sh : List (Option String)) (a : Address) : Option (List (Option String)) :=
  if a.isTcp then
    if a.isIpv4 then
      match sh with
      | [] => some [some (wan a.ip)]
      | some w :: rest => if a.ip = w then some (rest ++ [some w]) else none
      | none :: _ => none
    else some (sh ++ [none])
  else some sh

/-- The TLS configuration can be used for servers, or is not used. -/
def ServesListening (tls : TlsConfiguration) : Prop := tls.isActive = true → tls.compatible .server = true

theorem next_of_listenTransports {fuel : Nat} {ts ts' : List Transport} {a : Address}
    (h : listenTransports dds tls fuel ts a = returns ts') : next dds.wanAddress (shape ts) a = some (shape ts') := by
  obtain ⟨htcp, rfl⟩ | ⟨htcp, hv4, d, rest, rfl, rfl⟩ | ⟨htcp, hv4, rfl, d, -, rfl⟩ | ⟨htcp, hv4, d, -, rfl⟩ :=
    listenTransports_cases h
  · simp [next, htcp]
  · simp [next, htcp, hv4, shape]
  · simp [next, htcp, hv4, shape]
  · simp [next, htcp, hv4, shape]

/-- With one round, the address is done wherever it can be done. -/
theorem listenTransports_of_next {ts : List Transport} {a : Address} {sh : List (Option String)}
    (hs : ServesListening tls) (h : next dds.wanAddress (shape ts) a = some sh) :
    ∃ ts', listenTransports dds tls 1 ts a = returns ts' := by
  obtain ⟨d, hd⟩ := secure_of_compatible false hs { listeningPorts := [a.port] }
  unfold next at h
  unfold listenTransports
  cases htcp : a.isTcp with
  | false => exact ⟨ts, by simp⟩
  | true =>
    cases hv4 : a.isIpv4 with
    | false => exact ⟨ts ++ [.tcpv6 d], by simp [hd]⟩
    | true =>
      simp only [htcp, hv4, if_true] at h ⊢
      match ts with
      | [] => exact ⟨[.tcpv4 (dds.wanAddress a.ip) d], by simp [searchWan, hd]⟩
      | .tcpv4 w d' :: rest =>
        simp only [shape, List.map_cons] at h
        split at h
        · rename_i hip
          simp [searchWan, hip]
        · cases h
      | .udpv4 :: rest => simp [shape] at h
      | .udpv6 :: rest => simp [shape] at h
      | .tcpv6 d' :: rest => simp [shape] at h

theorem run_of_listenAll {fuel : Nat} {as : List Address} {f f' : Flags} {p p' : Params}
    (hv : ∀ a ∈ as, a.isValid dds = true) (h : listenAll dds tls fuel as f p = returns (f', p')) :
    run (next dds.wanAddress) (shape p.userTransports) as = some (shape p'.userTransports) := by
  induction as generalizing f p with
  | nil =>
    cases h
    rfl
  | cons a as ih =>
    simp only [listenAll, hv a List.mem_cons_self, Bool.not_true, Bool.false_eq_true, if_false] at h
    obtain ⟨ts, hts, h⟩ := bind_eq_returns.mp h
    rw [run_cons, next_of_listenTransports hts, Option.bind_some]
    exact ih (fun b hb => hv b (List.mem_cons_of_mem a hb)) h

theorem listenAll_of_run {as : List Address} {f : Flags} {p : Params} {sh : List (Option String)}
    (hs : ServesListening tls) (hv : ∀ a ∈ as, a.isValid dds = true)
    (h : run (next dds.wanAddress) (shape p.userTransports) as = some sh) :
    ∃ f' p', listenAll dds tls 1 as f p = returns (f', p') := by
  induction as generalizing f p with
  | nil => exact ⟨f, p, rfl⟩
  | cons a as ih =>
    obtain ⟨sh', hn, hr⟩ := run_cons_some.mp h
    obtain ⟨ts, hts⟩ := listenTransports_of_next hs hn
    rw [next_of_listenTransports hts, Option.some.injEq] at hn
    simp only [listenAll, hv a List.mem_cons_self, Bool.not_true, Bool.false_eq_true, if_false, hts, returns_bind]
    refine ih (fun b hb => hv b (List.mem_cons_of_mem a hb)) ?_
    rw [Params.listening_userTransports, hn]
    exact hr

/-! ### The addresses for which the search ends -/

def isIpv6 (a : Address) : Bool := !a.isIpv4

/-- No addresses with these properties stand in the list in this order. -/
def Lacks (ps : List (Address → Bool)) (l : List Address) : Prop :=
  ¬ ∃ m, m.Sublist l ∧ List.Forall₂ (fun p a => p a = true) ps m

theorem not_lacks_nil (l : List Address) : ¬ Lacks [] l := fun h => h ⟨[], List.nil_sublist l, .nil⟩

theorem lacks_of_nil (p : Address → Bool) (ps : List (Address → Bool)) : Lacks (p :: ps) [] := by
  rintro ⟨m, hm, hf⟩
  rw [List.sublist_nil.mp hm] at hf
  cases hf

theorem lacks_cons {p : Address → Bool} {ps : List (Address → Bool)} {a : Address} {l : List Address} :
    Lacks (p :: ps) (a :: l) ↔ Lacks (p :: ps) l ∧ (p a = true → Lacks ps l) := by
  constructor
  · intro h
    refine ⟨?_, fun hp => ?_⟩
    · rintro ⟨m, hm, hf⟩
      exact h ⟨m, hm.cons a, hf⟩
    · rintro ⟨m, hm, hf⟩
      exact h ⟨a :: m, hm.cons_cons a, .cons hp hf⟩
  · rintro ⟨hl, hp⟩ ⟨m, hm, hf⟩
    cases hf with
    | cons hb hf =>
      rename_i b m
      rcases List.sublist_cons_iff.mp hm with hm | ⟨r, hr, hm⟩
      · exact hl ⟨b :: m, hm, .cons hb hf⟩
      · cases hr
        exact hp hb ⟨m, hm, hf⟩

theorem Lacks.cons {p : Address → Bool} {ps : List (Address → Bool)} {l : List Address} (h : Lacks ps l) :
    Lacks (p :: ps) l := by
  rintro ⟨m, hm, hf⟩
  cases hf with
  | cons _ hf => exact h ⟨_, (List.sublist_cons_self _ _).trans hm, hf⟩

theorem lacks_single {p : Address → Bool} {l : List Address} : Lacks [p] l ↔ ∀ a ∈ l, p a = false := by
  induction l with
  | nil => simp [lacks_of_nil]
  | cons a l ih =>
    rw [lacks_cons, ih, List.forall_mem_cons, and_comm]
    refine and_congr_left fun _ => ?_
    rw [← Bool.not_eq_true]
    exact ⟨fun h hp => not_lacks_nil l (h hp), fun h hp => absurd hp h⟩

/-- TCP addresses in the order of the set for which the search ends: all that are v4
have the WAN address of the first one, and none of them comes after another one that
comes after a v6, the first one apart. -/
def Searchable (wan : String → String) : List Address → Prop
  | [] => True
  | a :: rest =>
    (∀ b ∈ rest, b.isIpv4 = true → a.isIpv4 = true ∧ b.ip = wan a.ip) ∧
      Lacks [isIpv6, Address.isIpv4, Address.isIpv4] rest

variable {wan : String → String} {as : List Address}

/-- Behind a transport of another kind, no v4 address is found any more. -/
theorem run_next_none (htcp : ∀ a ∈ as, a.isTcp = true) (sh : List (Option String)) :
    (∃ sh', run (next wan) (none :: sh) as = some sh') ↔ Lacks [Address.isIpv4] as := by
  rw [lacks_single]
  induction as generalizing sh with
  | nil => simp
  | cons a as ih =>
    have ha := htcp a List.mem_cons_self
    rw [List.forall_mem_cons, run_cons]
    cases hv4 : a.isIpv4 with
    | true => simp [next, ha, hv4]
    | false =>
      simp only [next, ha, hv4, if_true, Bool.false_eq_true, if_false, Option.bind_some, true_and, List.cons_append]
      exact ih (fun b hb => htcp b (List.mem_cons_of_mem a hb)) (sh ++ [none])

/-- With the v4 transport in front, and then some v6. -/
theorem run_next_some {w : String} (htcp : ∀ a ∈ as, a.isTcp = true) (k : Nat) :
    (∃ sh', run (next wan) (some w :: List.replicate k none) as = some sh') ↔
      (∀ b ∈ as, b.isIpv4 = true → b.ip = w) ∧
        if k = 0 then Lacks [isIpv6, Address.isIpv4, Address.isIpv4] as
        else Lacks [Address.isIpv4, Address.isIpv4] as := by
  induction as generalizing k with
  | nil => simp [lacks_of_nil]
  | cons a as ih =>
    have ha := htcp a List.mem_cons_self
    have htail : ∀ b ∈ as, b.isTcp = true := fun b hb => htcp b (List.mem_cons_of_mem a hb)
    rw [run_cons, List.forall_mem_cons, lacks_cons, lacks_cons]
    cases hv4 : a.isIpv4 with
    | false =>
      have hstep : next wan (some w :: List.replicate k none) a = some (some w :: List.replicate (k + 1) none) := by
        simp [next, ha, hv4, List.replicate_succ']
      rw [hstep, Option.bind_some, ih htail (k + 1), if_neg (Nat.succ_ne_zero k)]
      simp only [isIpv6, hv4, Bool.false_eq_true, false_implies, true_and, Bool.not_false, true_implies, and_true]
      split
      · -- the first v6
        exact and_congr_right fun _ => ⟨fun h => ⟨h.cons, h⟩, And.right⟩
      · rfl
    | true =>
      by_cases hip : a.ip = w
      · have hstep : next wan (some w :: List.replicate k none) a = some (List.replicate k none ++ [some w]) := by
          simp [next, ha, hv4, hip]
        rw [hstep, Option.bind_some]
        cases k with
        | zero =>
          have hih := ih htail 0
          simp only [List.replicate_zero, if_true] at hih
          simp [hih, isIpv6, hv4, hip]
        | succ k =>
          rw [List.replicate_succ, List.cons_append, run_next_none htail]
          simp only [hip, Nat.succ_ne_zero, if_false, true_implies, true_and]
          constructor
          · intro h
            refine ⟨fun b hb hb4 => ?_, h.cons, h⟩
            rw [lacks_single] at h
            simp [h b hb] at hb4
          · rintro ⟨-, -, h⟩
            exact h
      · have hstep : next wan (some w :: List.replicate k none) a = none := by
          simp [next, ha, hv4, hip]
        rw [hstep]
        simp [hip]

theorem run_next_iff_searchable (htcp : ∀ a ∈ as, a.isTcp = true) :
    (∃ sh, run (next wan) [] as = some sh) ↔ Searchable wan as := by
  cases as with
  | nil => simp [Searchable]
  | cons a as =>
    have ha := htcp a List.mem_cons_self
    have htail : ∀ b ∈ as, b.isTcp = true := fun b hb => htcp b (List.mem_cons_of_mem a hb)
    rw [run_cons, Searchable]
    cases hv4 : a.isIpv4 with
    | true =>
      have hstep : next wan [] a = some (some (wan a.ip) :: List.replicate 0 none) := by
        simp [next, ha, hv4]
      rw [hstep, Option.bind_some, run_next_some htail]
      simp
    | false =>
      have hstep : next wan [] a = some [none] := by simp [next, ha, hv4]
      rw [hstep, Option.bind_some, run_next_none htail]
      simp only [Bool.false_eq_true, false_and, imp_false, Bool.not_eq_true, ← lacks_single]
      exact ⟨fun h => ⟨h, h.cons.cons⟩, And.left⟩

/-- UDP addresses are passed over. -/
theorem run_next_filter (sh : List (Option String)) :
    run (next wan) sh as = run (next wan) sh (as.filter Address.isTcp) := by
  induction as generalizing sh with
  | nil => rfl
  | cons a as ih =>
    cases htcp : a.isTcp with
    | true =>
      rw [List.filter_cons_of_pos htcp, run_cons, run_cons]
      exact congrArg _ (funext fun sh' => ih sh')
    | false =>
      have hstep : next wan sh a = some sh := by simp [next, htcp]
      rw [List.filter_cons_of_neg (by simp [htcp]), run_cons, hstep, Option.bind_some]
      exact ih sh

/-- Addresses that are searchable are searched in one round each. -/
theorem listenAll_one (f : Flags) (id : ParticipantId) (hs : as ≠ [] → ServesListening tls)
    (hv : ∀ a ∈ as, a.isValid dds = true) (h : Searchable dds.wanAddress (as.filter Address.isTcp)) :
    ∃ f' p', listenAll dds tls 1 as f (commonAttributes id) = returns (f', p') := by
  rw [← run_next_iff_searchable (fun a ha => (List.mem_filter.mp ha).2), ← run_next_filter] at h
  obtain ⟨sh, h⟩ := h
  by_cases hnil : as = []
  · rw [hnil]
    exact ⟨f, _, rfl⟩
  · exact listenAll_of_run (hs hnil) hv h

/-- The loop ends for no other addresses, however many rounds it is given. -/
theorem searchable_of_listenAll {fuel : Nat} {f f' : Flags} {p' : Params} {id : ParticipantId}
    (hv : ∀ a ∈ as, a.isValid dds = true) (h : listenAll dds tls fuel as f (commonAttributes id) = returns (f', p')) :
    Searchable dds.wanAddress (as.filter Address.isTcp) := by
  rw [← run_next_iff_searchable (fun a ha => (List.mem_filter.mp ha).2), ← run_next_filter]
  exact ⟨_, run_of_listenAll hv h⟩

/-! ### The ports of the transport -/

theorem secure_ports {d d' : TCPTransport} {client : Bool} (h : tls.secure d client = returns d') :
    d'.listeningPorts = d.listeningPorts := by
  unfold TlsConfiguration.secure TlsConfiguration.enableTls at h
  split at h
  · split at h
    · split at h
      · cases h
      · cases h
        rfl
    · split at h
      · cases h
      · cases h
        split <;> rfl
  · cases h
    rfl

/-- There is one TCPv4 transport at most, and it has the ports of all addresses. -/
structure Shared (done : List Address) (ts : List Transport) : Prop where
  one : (ts.map Transport.kind).count .tcpv4 ≤ 1
  ports : ∀ w d, .tcpv4 w d ∈ ts → ∀ a ∈ done, a.getLocatorKind = .tcpv4 → a.port ∈ d.listeningPorts

theorem not_mem_of_count {w : String} {d : TCPTransport} {ts : List Transport}
    (h : (ts.map Transport.kind).count .tcpv4 = 0) : Transport.tcpv4 w d ∉ ts := fun hmem =>
  List.count_eq_zero.mp h (List.mem_map.mpr ⟨_, hmem, rfl⟩)

theorem shared_listening {fuel : Nat} {done : List Address} {a : Address} {f : Flags} {p : Params} {ts : List Transport}
    (hn : Noted done f p) (h : Shared done p.userTransports)
    (hts : listenTransports dds tls fuel p.userTransports a = returns ts) : Shared (done ++ [a]) ts := by
  have hother : a.getLocatorKind ≠ .tcpv4 → ∀ b ∈ done ++ [a], b.getLocatorKind = .tcpv4 → b ∈ done := by
    intro ha b hb hk
    rcases List.mem_append.mp hb with hb | hb
    · exact hb
    · rw [List.mem_singleton.mp hb] at hk
      exact absurd hk ha
  obtain ⟨htcp, rfl⟩ | ⟨htcp, hv4, d, rest, hcons, rfl⟩ | ⟨htcp, hv4, hnil, d, hd, rfl⟩ | ⟨htcp, hv4, d, hd, rfl⟩ :=
    listenTransports_cases hts
  · have ha : a.getLocatorKind ≠ .tcpv4 := by
      rw [getLocatorKind_eq, htcp]
      cases a.isIpv4 <;> simp
    exact ⟨h.one, fun w d hd b hb hk => h.ports w d hd b (hother ha b hb hk) hk⟩
  · -- the transport that was in front holds the new port too
    have hone := h.one
    rw [hcons] at hone
    simp only [List.map_cons, Transport.kind, List.count_cons_self] at hone
    refine ⟨by simpa [Transport.kind] using hone, fun w d' hd' b hb hk => ?_⟩
    rw [List.mem_append, List.mem_singleton, Transport.tcpv4.injEq] at hd'
    rcases hd' with hd' | ⟨-, rfl⟩
    · exact absurd hd' (not_mem_of_count (by omega))
    · rw [List.mem_append]
      rcases List.mem_append.mp hb with hb | hb
      · exact .inl (h.ports a.ip d (by simp [hcons]) b hb hk)
      · rw [List.mem_singleton.mp hb]
        exact .inr (by simp)
  · -- there was no TCPv4 address before
    have hnone : ∀ b ∈ done, b.getLocatorKind ≠ .tcpv4 := by
      intro b hb hk
      have hmem := (hn.transports .tcpv4).mpr ⟨.inl rfl, b, hb, hk⟩
      simp [hnil] at hmem
    refine ⟨by simp [Transport.kind], fun w d' hd' b hb hk => ?_⟩
    rw [List.mem_singleton, Transport.tcpv4.injEq] at hd'
    rcases List.mem_append.mp hb with hb | hb
    · exact absurd hk (hnone b hb)
    · rw [hd'.2, secure_ports hd, List.mem_singleton.mp hb]
      simp
  · have ha : a.getLocatorKind ≠ .tcpv4 := by
      rw [getLocatorKind_eq, htcp, hv4]
      simp
    refine ⟨?_, fun w d' hd' b hb hk => h.ports w d' ?_ b (hother ha b hb hk) hk⟩
    · have hone := h.one
      simpa [Transport.kind] using hone
    · simpa using hd'

theorem shared_listenAll {fuel : Nat} {id : ParticipantId} {f : Flags} {p : Params}
    (hv : ∀ a ∈ as, a.isValid dds = true)
    (h : listenAll dds tls fuel as {} (commonAttributes id) = returns (f, p)) : Shared as p.userTransports := by
  have hboth := listenAll_history (J := fun done f p => Noted done f p ∧ Shared done p.userTransports)
    (fun _ _ _ _ _ hJ hts => ⟨noted_listening hJ.1 hts, shared_listening hJ.1 hJ.2 hts⟩) hv
    ⟨noted_initial id, by simp [commonAttributes], by simp [commonAttributes]⟩ h
  exact hboth.2

/-- The TCPv4 transports have different WAN addresses, each with all the ports that are
listed for it, and every port that is listed is in one of them. -/
structure OneWan (listening : List Address) (p : Params) : Prop where
  once : p.userTransports.Pairwise fun t u => ∀ w d d', ¬ (t = .tcpv4 w d ∧ u = .tcpv4 w d')
  ports : ∀ w d, .tcpv4 w d ∈ p.userTransports → ∀ a ∈ listening, a.getLocatorKind = .tcpv4 → a.ip = w →
    a.port ∈ d.listeningPorts
  listed : ∀ a ∈ listening, a.getLocatorKind = .tcpv4 →
    ∃ w d, .tcpv4 w d ∈ p.userTransports ∧ a.port ∈ d.listeningPorts

theorem once_of_count {ts : List Transport} (h : (ts.map Transport.kind).count .tcpv4 ≤ 1) :
    ts.Pairwise fun t u => ∀ w d d', ¬ (t = .tcpv4 w d ∧ u = .tcpv4 w d') := by
  induction ts with
  | nil => exact List.Pairwise.nil
  | cons t ts ih =>
    rw [List.map_cons, List.count_cons] at h
    refine List.Pairwise.cons ?_ (ih (by omega))
    rintro u hu w d d' ⟨rfl, rfl⟩
    simp only [Transport.kind, beq_self_eq_true, if_true] at h
    exact not_mem_of_count (by omega) hu

theorem oneWan_of_connectionTransports {listening connection : List Address} {f : Flags} {p₀ p : Params}
    (hn : Noted listening f p₀) (h : Shared listening p₀.userTransports)
    (hc : connectionTransports tls (connection.foldl Flags.connection f) p₀.userTransports =
      returns p.userTransports) : OneWan listening p := by
  have hcon := connected_foldl f connection
  generalize connection.foldl Flags.connection f = f' at hcon hc
  obtain ⟨d₄, d₆, -, -, hp⟩ := connectionTransports_cases hc
  have hlisten : f'.hasListeningTcpIpv4 = true ↔ ∃ a ∈ listening, a.getLocatorKind = .tcpv4 := by
    rw [hcon.tcpv4, hn.tcpv4]
  have hmem : ∀ w d, .tcpv4 w d ∈ p.userTransports →
      .tcpv4 w d ∈ p₀.userTransports ∨ f'.hasListeningTcpIpv4 = false := by
    intro w d hd
    simp only [hp, List.mem_append] at hd
    rcases hd with (((hd | hd) | hd) | hd) | hd
    · exact .inl hd
    · cases hl : f'.hasListeningTcpIpv4 with
      | true => simp [hl] at hd
      | false => exact .inr rfl
    · split at hd <;> simp at hd
    · split at hd <;> simp at hd
    · split at hd <;> simp at hd
  refine ⟨once_of_count ?_, fun w d hd a ha hk _ => ?_, fun a ha hk => ?_⟩
  · have hif : ∀ (c : Bool) (t : Transport), t.kind ≠ .tcpv4 →
        ((if c then [t] else []).map Transport.kind).count .tcpv4 = 0 := by
      intro c t ht
      cases c with
      | true => simpa [List.count_cons] using ht
      | false => rfl
    rw [hp]
    simp only [List.map_append, List.count_append, hif _ _ (by simp [Transport.kind] : (Transport.tcpv6 d₆).kind ≠ _),
      hif _ _ (by simp [Transport.kind] : Transport.udpv4.kind ≠ _),
      hif _ _ (by simp [Transport.kind] : Transport.udpv6.kind ≠ _)]
    cases hl : f'.hasListeningTcpIpv4 with
    | true =>
      have hone := h.one
      simpa using hone
    | false =>
      have hnone : (p₀.userTransports.map Transport.kind).count .tcpv4 = 0 := by
        refine List.count_eq_zero.mpr fun hk => ?_
        have hex := ((hn.transports .tcpv4).mp hk).2
        rw [← hlisten, hl] at hex
        cases hex
      rw [hnone]
      split <;> simp [Transport.kind]
  · rcases hmem w d hd with hd | hl
    · exact h.ports w d hd a ha hk
    · have htrue := hlisten.mpr ⟨a, ha, hk⟩
      simp [hl] at htrue
  · obtain ⟨t, ht, hkt⟩ := List.mem_map.mp ((hn.transports .tcpv4).mpr ⟨.inl rfl, a, ha, hk⟩)
    cases t with
    | tcpv4 w d =>
      refine ⟨w, d, ?_, h.ports w d ht a ha hk⟩
      rw [hp]
      simp [ht]
    | udpv4 => simp [Transport.kind] at hkt
    | udpv6 => simp [Transport.kind] at hkt
    | tcpv6 d => simp [Transport.kind] at hkt

/-! ### The attributes -/

/-- Without connection addresses there are no flags of connections. -/
theorem connectionTransports_of_checked {listening connection : List Address} {f : Flags} {p : Params}
    (hc : Checked dds listening (connection ≠ []) tls) (hn : Noted listening f p) (ts : List Transport) :
    ∃ ts', connectionTransports tls (connection.foldl Flags.connection f) ts = returns ts' := by
  refine connectionTransports_returns (fun hflag => hc.client ?_) ts
  rw [decide_eq_true_eq]
  rintro rfl
  have htcp := hn.connectionTcp
  simp only [Prod.mk.injEq] at htcp
  simp [htcp.1, htcp.2] at hflag

/-! ### Both participants -/

/-- What the two participants have in common: checked addresses and TLS, the loop over the
listening addresses, and the transports added after the flags of the connection addresses. -/
structure Attributed (dds : FastDds) (tls : TlsConfiguration) (listening connection : List Address)
    (attributes : Nat → Outcome String Params) : Prop where
  checked : Checked dds listening (connection ≠ []) tls
  phases : ∃ (id : ParticipantId) (finish : Flags → Params → List Transport → Params),
    (∀ f p ts, (finish f p ts).userTransports = ts) ∧
    ∀ fuel, attributes fuel = (do
      let fp ← listenAll dds tls fuel listening {} (commonAttributes id)
      let ts ← connectionTransports tls (connection.foldl Flags.connection fp.1) fp.2.userTransports
      returns (finish fp.1 fp.2 ts))

theorem discoveryServer_attributed {c : DiscoveryServerParticipantConfiguration} (hv : c.isValid dds = true) :
    Attributed dds c.tlsConfiguration c.listeningAddresses.keys ((c.servers dds).map Prod.snd)
      (c.getParticipantAttributes dds) := by
  have hchecked := DiscoveryServerParticipantConfiguration.checked hv
  constructor
  · refine ⟨hchecked.addresses, hchecked.server, fun h => hchecked.client ?_⟩
    rw [decide_eq_true_eq] at h ⊢
    intro hnil
    exact h (by simp [DiscoveryServerParticipantConfiguration.servers, hnil])
  · refine ⟨c.id, fun f p ts => { p with
      discoveryServers := (c.servers dds).map fun s => ⟨s.1, serverLocator s.2⟩
      discoveryProtocol := if (((c.servers dds).map Prod.snd).foldl Flags.connection f).hasListeningAddresses then
        .server else .superClient
      guidPrefix := c.discoveryServerGuidPrefix
      userTransports := ts }, fun _ _ _ => rfl, fun fuel => ?_⟩
    simp only [List.foldl_map]
    rfl

theorem initialPeers_attributed {c : InitialPeersParticipantConfiguration} (hv : c.isValid dds = true) :
    Attributed dds c.tlsConfiguration c.listeningAddresses.keys (c.peers dds) (c.getParticipantAttributes dds) := by
  have hchecked := InitialPeersParticipantConfiguration.checked hv
  constructor
  · refine ⟨hchecked.addresses, hchecked.server, fun h => hchecked.client ?_⟩
    rw [decide_eq_true_eq] at h ⊢
    intro hnil
    exact h (by simp [InitialPeersParticipantConfiguration.peers, hnil])
  · refine ⟨c.id, fun f p ts =>
      let f := (c.peers dds).foldl Flags.connection f
      { p with
        initialPeersList := (c.peers dds).map peerLocator
        userTransports := ts
        metatrafficUnicastLocatorList := p.metatrafficUnicastLocatorList ++
          if !f.hasListeningAddresses then
            (if f.hasConnectionUdpIpv4 then [{ kind := .udpv4 }] else []) ++
              if f.hasConnectionUdpIpv6 then [{ kind := .udpv6 }] else []
          else [] }, fun _ _ _ => rfl, fun _ => rfl⟩

namespace Attributed

variable {listening connection : List Address} {attributes : Nat → Outcome String Params}

/-- The two phases of attributes that are returned. -/
theorem cases (h : Attributed dds tls listening connection attributes) {fuel : Nat} {p : Params}
    (hp : attributes fuel = returns p) :
    ∃ id f p₀, listenAll dds tls fuel listening {} (commonAttributes id) = returns (f, p₀) ∧
      connectionTransports tls (connection.foldl Flags.connection f) p₀.userTransports =
        returns p.userTransports := by
  obtain ⟨id, finish, hfinish, heq⟩ := h.phases
  rw [heq] at hp
  obtain ⟨⟨f, p₀⟩, hl, hp⟩ := bind_eq_returns.mp hp
  obtain ⟨ts, hts, hp⟩ := bind_eq_returns.mp hp
  cases hp
  exact ⟨id, f, p₀, hl, by rw [hfinish]; exact hts⟩

/-- One round for each search is enough where any number is. -/
theorem returns_one (h : Attributed dds tls listening connection attributes)
    (hs : Searchable dds.wanAddress (listening.filter Address.isTcp)) : ∃ p, attributes 1 = returns p := by
  obtain ⟨id, finish, -, heq⟩ := h.phases
  obtain ⟨f, p₀, hl⟩ := listenAll_one {} id h.checked.server h.checked.addresses hs
  obtain ⟨ts, hts⟩ := connectionTransports_of_checked h.checked (noted_listenAll h.checked.addresses hl)
    p₀.userTransports
  refine ⟨finish f p₀ ts, ?_⟩
  rw [heq, hl, returns_bind, hts, returns_bind]

/-- The second phase ends whenever the first one does. -/
theorem returns_iff (h : Attributed dds tls listening connection attributes) :
    (∃ fuel p, attributes fuel = returns p) ↔ Searchable dds.wanAddress (listening.filter Address.isTcp) := by
  constructor
  · rintro ⟨fuel, p, hp⟩
    obtain ⟨id, f, p₀, hl, -⟩ := h.cases hp
    exact searchable_of_listenAll h.checked.addresses hl
  · intro hs
    exact ⟨1, h.returns_one hs⟩

theorem terminates_iff (h : Attributed dds tls listening connection attributes) :
    (∃ fuel p, attributes fuel = returns p ∧ OneWan listening p) ↔
      Searchable dds.wanAddress (listening.filter Address.isTcp) := by
  rw [← h.returns_iff]
  constructor
  · rintro ⟨fuel, p, hp, -⟩
    exact ⟨fuel, p, hp⟩
  · rintro ⟨fuel, p, hp⟩
    obtain ⟨id, f, p₀, hl, hts⟩ := h.cases hp
    exact ⟨fuel, p, hp, oneWan_of_connectionTransports (noted_listenAll h.checked.addresses hl)
      (shared_listenAll h.checked.addresses hl) hts⟩

end Attributed

/-- For a valid configuration the attributes are returned, with one TCPv4 transport for
each WAN address, exactly if the TCP addresses that are listened on are searchable. -/
theorem attributes_terminate_iff_searchable (dds : FastDds) :
    (∀ c : DiscoveryServerParticipantConfiguration, c.isValid dds = true →
      ((∃ fuel p, c.getParticipantAttributes dds fuel = returns p ∧ OneWan c.listeningAddresses.keys p) ↔
        Searchable dds.wanAddress (c.listeningAddresses.keys.filter Address.isTcp))) ∧
    ∀ c : InitialPeersParticipantConfiguration, c.isValid dds = true →
      ((∃ fuel p, c.getParticipantAttributes dds fuel = returns p ∧ OneWan c.listeningAddresses.keys p) ↔
        Searchable dds.wanAddress (c.listeningAddresses.keys.filter Address.isTcp)) :=
  ⟨fun _ hv => (discoveryServer_attributed hv).terminates_iff, fun _ hv => (initialPeers_attributed hv).terminates_iff⟩

/-! Two ports of one address, and two addresses. -/

def listeningAt (listening : AddressSet) : InitialPeersParticipantConfiguration :=
  { id := ⟨"a"⟩, kind := .wanInitialPeers, listeningAddresses := listening }

def twoPorts : InitialPeersParticipantConfiguration :=
  listeningAt ((OrdMap.empty.set (peerAt "127.0.0.1" .v4 .tcp) ()).set
    { peerAt "127.0.0.1" .v4 .tcp with port := 11667, externalPort := 11667 } ())

def twoIps : InitialPeersParticipantConfiguration :=
  listeningAt ((OrdMap.empty.set (peerAt "127.0.0.1" .v4 .tcp) ()).set (peerAt "127.0.0.2" .v4 .tcp) ())

theorem twoPorts_terminates :
    twoPorts.isValid plainDds = true ∧ ∃ fuel p, twoPorts.getParticipantAttributes plainDds fuel = returns p ∧
      OneWan twoPorts.listeningAddresses.keys p := by
  refine ⟨by decide, ((attributes_terminate_iff_searchable plainDds).2 twoPorts (by decide)).mpr ⟨by decide, ?_⟩⟩
  exact lacks_cons.mpr ⟨lacks_of_nil _ _, fun h => absurd h (by decide)⟩

theorem twoIps_never_terminates :
    ¬ ((∀ (dds : FastDds) (c : DiscoveryServerParticipantConfiguration), c.isValid dds = true →
        ∃ fuel p, c.getParticipantAttributes dds fuel = returns p ∧ OneWan c.listeningAddresses.keys p) ∧
      ∀ (dds : FastDds) (c : InitialPeersParticipantConfiguration), c.isValid dds = true →
        ∃ fuel p, c.getParticipantAttributes dds fuel = returns p ∧ OneWan c.listeningAddresses.keys p) := by
  rintro ⟨-, h⟩
  have hvalid : twoIps.isValid plainDds = true := by decide
  obtain ⟨hfirst, -⟩ := (initialPeers_attributed hvalid).terminates_iff.mp (h plainDds twoIps hvalid)
  exact absurd (hfirst (peerAt "127.0.0.2" .v4 .tcp) (by decide) (by decide)).2 (by decide)

end DDSRouter.Configuration
