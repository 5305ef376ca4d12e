import DDSRouter.Arguments

/-!
# The settings of the tool

What an accepted command line makes of the settings: the loop over its options, and
`main` behind it. Each setting is what the last option for it says.
-/
namespace DDSRouter.Tool

open OptionParser

/-! ### The loop over the options -/

/-- A field as the last option that sets it leaves it. -/
def lastSet {α : Type} (set : List OptionIndex) (read : ParsedOption OptionIndex → Option α) (old : α)
    (os : List (ParsedOption OptionIndex)) : Option α :=
  match (os.filter fun o => o.index ∈ set).getLast? with
  | none => some old
  | some o => read o

section Fields

variable {α : Type} {set : List OptionIndex} {read : ParsedOption OptionIndex → Option α} {old v : α}
  {o : ParsedOption OptionIndex} {os : List (ParsedOption OptionIndex)}

theorem lastSet_cons (h : (if o.index ∈ set then read o else some old) = some v) :
    lastSet set read old (o :: os) = lastSet set read v os := by
  by_cases ho : o.index ∈ set
  · rw [if_pos ho] at h
    have hlast : ((o :: os).filter fun o => o.index ∈ set).getLast? =
        some (((os.filter fun o => o.index ∈ set).getLast?).getD o) := by
      rw [List.filter_cons_of_pos (by simpa using ho), List.getLast?_cons]
    rw [lastSet, lastSet, hlast]
    cases (os.filter fun o => o.index ∈ set).getLast? with
    | none => exact h
    | some o' => rfl
  · rw [if_neg ho] at h
    rw [lastSet, lastSet, List.filter_cons_of_neg (by simpa using ho), Option.some.inj h]

end Fields

section Loop

variable (durationMs : Int → Nat)

def readTime (o : ParsedOption OptionIndex) : Option Nat :=
  o.arg.bind fun arg => (toMilliseconds arg).toOption.map durationMs

def readLogFilter (o : ParsedOption OptionIndex) : Option (List Char) :=
  if o.index = .activateDebug then some "DDSROUTER".toList else o.arg

def readLogVerbosity (o : ParsedOption OptionIndex) : Option LogKind :=
  if o.index = .activateDebug then some .info else o.arg.bind fun arg => (fromStringLogKind arg).toOption

/-- Each setting is what the last option for it says, and else as it was. -/
structure SetBy (s : Settings) (os : List (ParsedOption OptionIndex)) (s' : Settings) : Prop where
  filePath : lastSet [.configurationFile] ParsedOption.arg s.filePath os = some s'.filePath
  reloadTime : lastSet [.reloadTime] (readTime durationMs) s.reloadTime os = some s'.reloadTime
  timeout : lastSet [.timeout] (readTime durationMs) s.timeout os = some s'.timeout
  logFilter : lastSet [.logFilter, .activateDebug] readLogFilter s.logFilter os = some s'.logFilter
  logVerbosity : lastSet [.logVerbosity, .activateDebug] readLogVerbosity s.logVerbosity os = some s'.logVerbosity

/-- The argument of an option as its check accepts it. -/
def Checked (o : ParsedOption OptionIndex) : Prop :=
  match o.index with
  | .configurationFile | .logFilter => ∃ arg, o.arg = some arg
  | .reloadTime | .timeout => ∃ arg n, o.arg = some arg ∧ strtol arg = some (n, [])
  | .logVerbosity => ∃ arg, o.arg = some arg ∧ arg ∈ stringVectorLogKind
  | .unknownOpt | .help | .version | .activateDebug => True

/-- A number of seconds is so large that no `long` holds it. -/
def Exceeds (o : ParsedOption OptionIndex) : Prop :=
  (o.index = .reloadTime ∨ o.index = .timeout) ∧
    ∃ arg n, o.arg = some arg ∧ strtol arg = some (n, []) ∧ ¬ InLong n

theorem toMilliseconds_of_inLong {arg : List Char} {n : Int} (h : strtol arg = some (n, []))
    (hn : InLong n) : toMilliseconds arg = .ok (wrapLong (n * 1000)) := by
  simp [toMilliseconds, stol, h, hn, bind, Except.bind, pure, Except.pure]

theorem toMilliseconds_of_not_inLong {arg : List Char} {n : Int} (h : strtol arg = some (n, []))
    (hn : ¬ InLong n) : toMilliseconds arg = .error .outOfRange := by
  simp [toMilliseconds, stol, h, hn, bind, Except.bind]

/-- A time that a `long` holds in milliseconds is read as it is. -/
theorem toMilliseconds_exact {arg : List Char} {n : Int} (h : strtol arg = some (n, []))
    (hn : InLong (n * 1000)) : toMilliseconds arg = .ok (n * 1000) := by
  have hlong : InLong n := by
    unfold InLong at hn ⊢
    omega
  rw [toMilliseconds_of_inLong h hlong, wrapLong_of_inLong hn]

theorem fromStringLogKind_of_mem {arg : List Char} (h : arg ∈ stringVectorLogKind) :
    ∃ kind, fromStringLogKind arg = .ok kind := by
  simp only [stringVectorLogKind, List.mem_cons, List.not_mem_nil, or_false] at h
  rcases h with rfl | rfl | rfl
  · exact ⟨.error, rfl⟩
  · exact ⟨.warning, rfl⟩
  · exact ⟨.info, rfl⟩

variable {durationMs : Int → Nat} {s s₁ s' : Settings} {o : ParsedOption OptionIndex}
  {os : List (ParsedOption OptionIndex)}

/-- One option changes the fields that it sets, and no others. -/
theorem setBy_cons
    (hfile : (if o.index ∈ [OptionIndex.configurationFile] then o.arg else some s.filePath) = some s₁.filePath)
    (hreload : (if o.index ∈ [OptionIndex.reloadTime] then readTime durationMs o else some s.reloadTime) =
      some s₁.reloadTime)
    (htimeout : (if o.index ∈ [OptionIndex.timeout] then readTime durationMs o else some s.timeout) =
      some s₁.timeout)
    (hfilter : (if o.index ∈ [OptionIndex.logFilter, .activateDebug] then readLogFilter o else some s.logFilter) =
      some s₁.logFilter)
    (hverbosity : (if o.index ∈ [OptionIndex.logVerbosity, .activateDebug] then readLogVerbosity o
      else some s.logVerbosity) = some s₁.logVerbosity) :
    SetBy durationMs s (o :: os) s' ↔ SetBy durationMs s₁ os s' := by
  constructor
  · rintro ⟨h₁, h₂, h₃, h₄, h₅⟩
    rw [lastSet_cons hfile] at h₁
    rw [lastSet_cons hreload] at h₂
    rw [lastSet_cons htimeout] at h₃
    rw [lastSet_cons hfilter] at h₄
    rw [lastSet_cons hverbosity] at h₅
    exact ⟨h₁, h₂, h₃, h₄, h₅⟩
  · rintro ⟨h₁, h₂, h₃, h₄, h₅⟩
    rw [← lastSet_cons hfile] at h₁
    rw [← lastSet_cons hreload] at h₂
    rw [← lastSet_cons htimeout] at h₃
    rw [← lastSet_cons hfilter] at h₄
    rw [← lastSet_cons hverbosity] at h₅
    exact ⟨h₁, h₂, h₃, h₄, h₅⟩

theorem toMilliseconds_of_checked (hc : Checked o) (hi : o.index = .reloadTime ∨ o.index = .timeout)
    (he : ¬ Exceeds o) : ∃ arg ms, o.arg = some arg ∧ toMilliseconds arg = .ok ms := by
  have hnumber : ∃ arg n, o.arg = some arg ∧ strtol arg = some (n, []) := by
    unfold Checked at hc
    rcases hi with hi | hi <;> simpa [hi] using hc
  obtain ⟨arg, n, harg, hn⟩ := hnumber
  by_cases hl : InLong n
  · exact ⟨arg, _, harg, toMilliseconds_of_inLong hn hl⟩
  · exact absurd ⟨hi, arg, n, harg, hn, hl⟩ he

/-- One round of the loop for an option that is known and does not exceed. -/
theorem applyOptions_cons (durationMs : Int → Nat) (s : Settings) (os : List (ParsedOption OptionIndex))
    (hc : Checked o) (hu : o.index ≠ .unknownOpt) (he : ¬ Exceeds o) :
    ∃ s₁, applyOptions durationMs s (o :: os) = applyOptions durationMs s₁ os ∧
      ∀ s', SetBy durationMs s (o :: os) s' ↔ SetBy durationMs s₁ os s' := by
  have htime := fun hi => toMilliseconds_of_checked hc hi he
  obtain ⟨i, arg⟩ := o
  cases i with
  | unknownOpt => exact absurd rfl hu
  | help => exact ⟨s, rfl, fun s' => setBy_cons (by simp) (by simp) (by simp) (by simp) (by simp)⟩
  | version => exact ⟨s, rfl, fun s' => setBy_cons (by simp) (by simp) (by simp) (by simp) (by simp)⟩
  | activateDebug =>
    refine ⟨{ s with logFilter := "DDSROUTER".toList, logVerbosity := .info }, rfl, fun s' => ?_⟩
    exact setBy_cons (by simp) (by simp) (by simp) (by simp [readLogFilter]) (by simp [readLogVerbosity])
  | configurationFile =>
    obtain ⟨a, ha⟩ : ∃ a, arg = some a := hc
    subst ha
    refine ⟨{ s with filePath := a }, rfl, fun s' => ?_⟩
    exact setBy_cons (by simp) (by simp) (by simp) (by simp) (by simp)
  | logFilter =>
    obtain ⟨a, ha⟩ : ∃ a, arg = some a := hc
    subst ha
    refine ⟨{ s with logFilter := a }, rfl, fun s' => ?_⟩
    exact setBy_cons (by simp) (by simp) (by simp) (by simp [readLogFilter]) (by simp)
  | logVerbosity =>
    obtain ⟨a, ha, hmem⟩ : ∃ a, arg = some a ∧ a ∈ stringVectorLogKind := hc
    obtain ⟨kind, hkind⟩ := fromStringLogKind_of_mem hmem
    subst ha
    refine ⟨{ s with logVerbosity := kind }, ?_, fun s' => ?_⟩
    · simp [applyOptions, charPointer, hkind, bind, Except.bind]
    · exact setBy_cons (by simp) (by simp) (by simp) (by simp) (by simp [readLogVerbosity, hkind, Except.toOption])
  | reloadTime =>
    obtain ⟨a, ms, ha, hms⟩ := htime (.inl rfl)
    dsimp only at ha
    subst ha
    refine ⟨{ s with reloadTime := durationMs ms }, ?_, fun s' => ?_⟩
    · simp [applyOptions, charPointer, hms, bind, Except.bind]
    · exact setBy_cons (by simp) (by simp [readTime, hms, Except.toOption]) (by simp) (by simp) (by simp)
  | timeout =>
    obtain ⟨a, ms, ha, hms⟩ := htime (.inr rfl)
    dsimp only at ha
    subst ha
    refine ⟨{ s with timeout := durationMs ms }, ?_, fun s' => ?_⟩
    · simp [applyOptions, charPointer, hms, bind, Except.bind]
    · exact setBy_cons (by simp) (by simp) (by simp [readTime, hms, Except.toOption]) (by simp) (by simp)

theorem applyOptions_exceeds (durationMs : Int → Nat) (s : Settings) (os : List (ParsedOption OptionIndex))
    (he : Exceeds o) : applyOptions durationMs s (o :: os) = .error .outOfRange := by
  obtain ⟨hi, arg, n, harg, hn, hl⟩ := he
  have hms := toMilliseconds_of_not_inLong hn hl
  obtain ⟨i, arg'⟩ := o
  dsimp only at hi harg
  subst harg
  rcases hi with rfl | rfl <;> simp [applyOptions, charPointer, hms, bind, Except.bind]

theorem Exceeds.known (h : Exceeds o) : o.index ≠ .unknownOpt := by
  rcases h.1 with hi | hi <;> simp [hi]

/-- What the loop does with an option: it returns, it is ended, or it goes on. -/
theorem applyOptions_cases (durationMs : Int → Nat) (s : Settings) (os : List (ParsedOption OptionIndex))
    (hc : Checked o) :
    (o.index = .unknownOpt ∧ ¬ Exceeds o ∧ applyOptions durationMs s (o :: os) = .ok (.incorrectArgument, s)) ∨
      (Exceeds o ∧ applyOptions durationMs s (o :: os) = .error .outOfRange) ∨
      (o.index ≠ .unknownOpt ∧ ¬ Exceeds o ∧
        ∃ s₁, applyOptions durationMs s (o :: os) = applyOptions durationMs s₁ os ∧
          ∀ s', SetBy durationMs s (o :: os) s' ↔ SetBy durationMs s₁ os s') := by
  by_cases hu : o.index = .unknownOpt
  · exact .inl ⟨hu, fun he => he.known hu, by simp [applyOptions, hu]⟩
  by_cases he : Exceeds o
  · exact .inr (.inl ⟨he, applyOptions_exceeds durationMs s os he⟩)
  · exact .inr (.inr ⟨hu, he, applyOptions_cons durationMs s os hc hu he⟩)

/-- The loop ends with settings where every option is known and no number exceeds. -/
theorem applyOptions_success (hc : ∀ o ∈ os, Checked o) :
    applyOptions durationMs s os = .ok (.success, s') ↔
      (∀ o ∈ os, o.index ≠ .unknownOpt ∧ ¬ Exceeds o) ∧ SetBy durationMs s os s' := by
  induction os generalizing s with
  | nil =>
    constructor
    · intro h
      simp only [applyOptions, Except.ok.injEq, Prod.mk.injEq, true_and] at h
      subst h
      exact ⟨(fun o ho => by cases ho), ⟨rfl, rfl, rfl, rfl, rfl⟩⟩
    · rintro ⟨-, h₁, h₂, h₃, h₄, h₅⟩
      simp only [lastSet, List.filter_nil, List.getLast?_nil, Option.some.injEq] at h₁ h₂ h₃ h₄ h₅
      obtain ⟨_, _, _, _, _⟩ := s'
      dsimp only at h₁ h₂ h₃ h₄ h₅
      subst h₁ h₂ h₃ h₄ h₅
      rfl
  | cons o os ih =>
    obtain ⟨hco, hcos⟩ := List.forall_mem_cons.mp hc
    rw [List.forall_mem_cons]
    rcases applyOptions_cases durationMs s os hco with ⟨hu, -, happly⟩ | ⟨he, happly⟩ | ⟨hu, he, s₁, happly, hset⟩
    · simp [happly, hu]
    · simp [happly, he]
    · rw [happly, ih hcos, hset]
      simp [hu, he]

/-- The loop does not end where a number exceeds before an option is unknown. -/
theorem applyOptions_error (hc : ∀ o ∈ os, Checked o) :
    (∃ e, applyOptions durationMs s os = .error e) ↔
      ∃ before o after, os = before ++ o :: after ∧ (∀ o ∈ before, o.index ≠ .unknownOpt) ∧ Exceeds o := by
  induction os generalizing s with
  | nil =>
    constructor
    · rintro ⟨e, he⟩
      cases he
    · rintro ⟨before, o, after, h, -⟩
      simp at h
  | cons o os ih =>
    obtain ⟨hco, hcos⟩ := List.forall_mem_cons.mp hc
    -- the option that exceeds is the first one, or stands behind it
    have hsplit : (∃ before o' after, o :: os = before ++ o' :: after ∧
          (∀ o ∈ before, o.index ≠ .unknownOpt) ∧ Exceeds o') ↔
        Exceeds o ∨ o.index ≠ .unknownOpt ∧ ∃ before o' after, os = before ++ o' :: after ∧
          (∀ o ∈ before, o.index ≠ .unknownOpt) ∧ Exceeds o' := by
      constructor
      · rintro ⟨before, o', after, hos, hbefore, he⟩
        cases before with
        | nil =>
          rw [List.nil_append, List.cons.injEq] at hos
          exact .inl (hos.1 ▸ he)
        | cons b before =>
          rw [List.cons_append, List.cons.injEq] at hos
          obtain ⟨hb, hbefore⟩ := List.forall_mem_cons.mp hbefore
          exact .inr ⟨hos.1 ▸ hb, before, o', after, hos.2, hbefore, he⟩
      · rintro (he | ⟨hu, before, o', after, rfl, hbefore, he⟩)
        · exact ⟨[], o, os, rfl, (fun o ho => by cases ho), he⟩
        · exact ⟨o :: before, o', after, rfl, List.forall_mem_cons.mpr ⟨hu, hbefore⟩, he⟩
    rw [hsplit]
    rcases applyOptions_cases durationMs s os hco with ⟨hu, he, happly⟩ | ⟨he, hend⟩ | ⟨hu, he, s₁, happly, -⟩
    · simp [happly, hu, he]
    · simp [hend, he]
    · rw [happly, ih hcos]
      simp [hu, he]

theorem applyOptions_code (hc : ∀ o ∈ os, Checked o) {code : ProcessReturnCode}
    (h : applyOptions durationMs s os = .ok (code, s')) : code = .success ∨ code = .incorrectArgument := by
  induction os generalizing s with
  | nil =>
    simp only [applyOptions, Except.ok.injEq, Prod.mk.injEq] at h
    exact .inl h.1.symm
  | cons o os ih =>
    obtain ⟨hco, hcos⟩ := List.forall_mem_cons.mp hc
    rcases applyOptions_cases durationMs s os hco with ⟨-, -, happly⟩ | ⟨-, happly⟩ | ⟨-, -, s₁, happly, -⟩
    · simp only [happly, Except.ok.injEq, Prod.mk.injEq] at h
      exact .inr h.1.symm
    · simp [happly] at h
    · exact ih hcos (happly ▸ h)

end Loop

/-! ### What the command line decides -/

/-- The parser takes the command line: it is spelled in valid phrases, with not more options
than an `int` counts. -/
structure Accepted (readable : List Char → Bool) (ps : List Phrase) (args : List (List Char)) : Prop where
  valid : ∀ p ∈ ps, p.Valid readable
  spells : Spells ps args
  few : (ps.flatMap Phrase.options).length ≤ maxInt

/-- An option that only asks for a text. -/
def AsksForText (o : ParsedOption OptionIndex) : Prop := o.index = .help ∨ o.index = .version

instance (o : ParsedOption OptionIndex) : Decidable (AsksForText o) := inferInstanceAs (Decidable (_ ∨ _))

section Main

variable {durationMs : Int → Nat} {readable readableLater : List Char → Bool} {ps : List Phrase}
  {program : List Char} {args : List (List Char)} {s s' : Settings}

theorem Valued.checked {o : Valued} {v : List Char} (h : o.Takes readable v) : Checked ⟨o.index, some v⟩ := by
  cases o with
  | configurationFile => exact ⟨v, rfl⟩
  | logFilter => exact ⟨v, rfl⟩
  | logVerbosity => exact ⟨v, rfl, h⟩
  | reloadTime =>
    obtain ⟨n, hn⟩ := h
    exact ⟨v, n, rfl, hn⟩
  | timeout =>
    obtain ⟨n, hn⟩ := h
    exact ⟨v, n, rfl, hn⟩

theorem checked_letter (c : Char) : Checked ⟨letterIndex c, none⟩ := by
  unfold letterIndex
  split
  · trivial
  split
  · trivial
  split <;> trivial

/-- The options of a valid phrase have arguments as their checks accept them. -/
theorem checked_of_valid {p : Phrase} (h : p.Valid readable) : ∀ o ∈ p.options, Checked o := by
  cases p with
  | flag o ignored =>
    simp only [Phrase.options, List.mem_singleton, forall_eq]
    cases o <;> trivial
  | unknown name =>
    simp only [Phrase.options, List.mem_singleton, forall_eq]
    trivial
  | valued o attached v =>
    simp only [Phrase.options, List.mem_singleton, forall_eq]
    exact o.checked h
  | group l =>
    simp only [Phrase.options, List.mem_map, forall_exists_index, and_imp, forall_apply_eq_imp_iff₂]
    exact fun c _ => checked_letter c
  | groupValued l o letter attached v =>
    intro o' ho'
    simp only [Phrase.options, List.mem_append, List.mem_map, List.mem_singleton] at ho'
    rcases ho' with ⟨c, -, rfl⟩ | rfl
    · exact checked_letter c
    · exact o.checked h.2.2.2.2

theorem Accepted.checked (h : Accepted readable ps args) : ∀ o ∈ ps.flatMap Phrase.options, Checked o := by
  intro o ho
  obtain ⟨p, hp, ho⟩ := List.mem_flatMap.mp ho
  exact checked_of_valid (h.valid p hp) o ho

theorem parseArguments_accepted (h : Accepted readable ps args) :
    parseArguments durationMs readable s (program :: args) =
      if (ps.flatMap Phrase.options).any fun o => o.index = .help then .ok (.helpArgument, s)
      else if (ps.flatMap Phrase.options).any fun o => o.index = .version then .ok (.versionArgument, s)
      else applyOptions durationMs s (ps.flatMap Phrase.options) := by
  have hparse := parse_eq (scan_spells h.valid h.spells) h.few
  rw [parseArguments, hparse]
  rfl

theorem parseArguments_refused (h : ∀ ps, ¬ Accepted readable ps args) :
    parseArguments durationMs readable s (program :: args) = .ok (.incorrectArgument, s) := by
  have hparse : (Parser.parse (usage readable) args).error = true ∨
      (Parser.parse (usage readable) args).nonOptions ≠ [] := by
    cases hscan : scan (usage readable) args with
    | mk os rest =>
      cases rest with
      | none => exact .inl (parse_error (.inl (by rw [hscan])))
      | some rest =>
        by_cases hlen : os.length ≤ maxInt
        · right
          rw [parse_eq hscan hlen]
          rintro rfl
          have hread : (scan (usage readable) args).2 = some [] := by rw [hscan]
          obtain ⟨ps, hps, hspells⟩ := spells_of_scan hread
          have hos := options_of_spells hps hspells hscan
          exact h ps ⟨hps, hspells, hos ▸ hlen⟩
        · exact .inl (parse_error (.inr (by rw [hscan]; exact Nat.lt_of_not_le hlen)))
  rw [parseArguments]
  rcases hparse with herror | hrest
  · simp [herror]
  · simp [hrest]

theorem mainArguments_asked (h : Accepted readable ps args) (ha : ∃ o ∈ ps.flatMap Phrase.options, AsksForText o) :
    mainArguments durationMs readable readableLater (program :: args) = .ok (.inl .success) := by
  rw [mainArguments, parseArguments_accepted h]
  obtain ⟨o, ho, hhelp | hversion⟩ := ha
  · have hany : ((ps.flatMap Phrase.options).any fun o => o.index = .help) = true :=
      List.any_eq_true.mpr ⟨o, ho, by simpa using hhelp⟩
    rw [if_pos hany]
    rfl
  · have hany : ((ps.flatMap Phrase.options).any fun o => o.index = .version) = true :=
      List.any_eq_true.mpr ⟨o, ho, by simpa using hversion⟩
    rw [if_pos hany]
    split <;> rfl

theorem mainArguments_applied (h : Accepted readable ps args)
    (ha : ∀ o ∈ ps.flatMap Phrase.options, ¬ AsksForText o) :
    mainArguments durationMs readable readableLater (program :: args) =
      (applyOptions durationMs initialSettings (ps.flatMap Phrase.options)).map (afterArguments readableLater) := by
  have hhelp : ((ps.flatMap Phrase.options).any fun o => o.index = .help) = false :=
    List.any_eq_false.mpr fun o ho => by simpa using fun hi => ha o ho (.inl hi)
  have hversion : ((ps.flatMap Phrase.options).any fun o => o.index = .version) = false :=
    List.any_eq_false.mpr fun o ho => by simpa using fun hi => ha o ho (.inr hi)
  rw [mainArguments, parseArguments_accepted h, hhelp, hversion]
  rfl

/-! ### `main` behind the loop over the options -/

theorem applied_goesOn {os : List (ParsedOption OptionIndex)} (hc : ∀ o ∈ os, Checked o)
    (h : (applyOptions durationMs initialSettings os).map (afterArguments readableLater) = .ok (.inr s)) :
    ∃ s', applyOptions durationMs initialSettings os = .ok (.success, s') ∧ s = s'.withFile ∧
      readableLater s.filePath = true := by
  cases happly : applyOptions durationMs initialSettings os with
  | error e =>
    rw [happly] at h
    cases h
  | ok r =>
    obtain ⟨code, s'⟩ := r
    rw [happly] at h
    rcases applyOptions_code hc happly with rfl | rfl
    · by_cases hread : readableLater s'.withFile.filePath = true
      · simp only [Except.map, afterArguments, hread, if_true, Except.ok.injEq, Sum.inr.injEq] at h
        exact ⟨s', rfl, h.symm, h ▸ hread⟩
      · simp [Except.map, afterArguments, hread] at h
    · cases h

/-- After options that are accepted only the file can be missing. -/
theorem applied_missing {os : List (ParsedOption OptionIndex)} (hc : ∀ o ∈ os, Checked o) :
    (applyOptions durationMs initialSettings os).map (afterArguments readableLater) =
        .ok (.inl .requiredArgumentFailed) ↔
      ∃ s', applyOptions durationMs initialSettings os = .ok (.success, s') ∧
        readableLater s'.withFile.filePath = false := by
  cases happly : applyOptions durationMs initialSettings os with
  | error e => simp [Except.map]
  | ok r =>
    obtain ⟨code, s'⟩ := r
    rcases applyOptions_code hc happly with rfl | rfl
    · cases hread : readableLater s'.withFile.filePath <;> simp [Except.map, afterArguments, hread]
    · simp [Except.map, afterArguments]

theorem applied_not_success {os : List (ParsedOption OptionIndex)} (hc : ∀ o ∈ os, Checked o) :
    (applyOptions durationMs initialSettings os).map (afterArguments readableLater) ≠ .ok (.inl .success) := by
  intro h
  cases happly : applyOptions durationMs initialSettings os with
  | error e =>
    rw [happly] at h
    cases h
  | ok r =>
    obtain ⟨code, s'⟩ := r
    rw [happly] at h
    rcases applyOptions_code hc happly with rfl | rfl
    · by_cases hread : readableLater s'.withFile.filePath = true <;> simp [Except.map, afterArguments, hread] at h
    · cases h

theorem applied_error (os : List (ParsedOption OptionIndex)) :
    (∃ e, (applyOptions durationMs initialSettings os).map (afterArguments readableLater) = .error e) ↔
      ∃ e, applyOptions durationMs initialSettings os = .error e := by
  cases applyOptions durationMs initialSettings os with
  | error e => simp [Except.map]
  | ok r => simp [Except.map]

/-- The three ways of `main` through a command line: it is refused, it asks for a text, or
its options are applied. -/
theorem mainArguments_cases (durationMs : Int → Nat) (readable readableLater : List Char → Bool)
    (program : List Char) (args : List (List Char)) :
    mainArguments durationMs readable readableLater (program :: args) = .ok (.inl .incorrectArgument) ∨
      ∃ ps, Accepted readable ps args ∧
        ((∃ o ∈ ps.flatMap Phrase.options, AsksForText o) ∧
            mainArguments durationMs readable readableLater (program :: args) = .ok (.inl .success) ∨
          (∀ o ∈ ps.flatMap Phrase.options, ¬ AsksForText o) ∧
            mainArguments durationMs readable readableLater (program :: args) =
              (applyOptions durationMs initialSettings (ps.flatMap Phrase.options)).map
                (afterArguments readableLater)) := by
  by_cases haccepted : ∃ ps, Accepted readable ps args
  · obtain ⟨ps, hps⟩ := haccepted
    refine .inr ⟨ps, hps, ?_⟩
    by_cases ha : ∃ o ∈ ps.flatMap Phrase.options, AsksForText o
    · exact .inl ⟨ha, mainArguments_asked hps ha⟩
    · have ha' : ∀ o ∈ ps.flatMap Phrase.options, ¬ AsksForText o := fun o ho hask => ha ⟨o, ho, hask⟩
      exact .inr ⟨ha', mainArguments_applied hps ha'⟩
  · left
    rw [mainArguments, parseArguments_refused fun ps hps => haccepted ⟨ps, hps⟩]
    rfl

/-- `main` goes on exactly with the settings that the phrases of an accepted command line
say, where the file that they name can be read when `main` asks again, and fails for want
of it exactly where it cannot. It returns successfully exactly where a phrase asks for a
text, and is ended by a number exactly where no `long` holds that. -/
theorem arguments_decide (program : List Char) (args : List (List Char)) :
    (∀ s, mainArguments durationMs readable readableLater (program :: args) = .ok (.inr s) ↔
      ∃ ps s', Accepted readable ps args ∧
        (∀ o ∈ ps.flatMap Phrase.options, ¬ AsksForText o ∧ o.index ≠ .unknownOpt ∧ ¬ Exceeds o) ∧
        SetBy durationMs initialSettings (ps.flatMap Phrase.options) s' ∧
        s = s'.withFile ∧ readableLater s.filePath = true) ∧
      (mainArguments durationMs readable readableLater (program :: args) = .ok (.inl .requiredArgumentFailed) ↔
        ∃ ps s', Accepted readable ps args ∧
          (∀ o ∈ ps.flatMap Phrase.options, ¬ AsksForText o ∧ o.index ≠ .unknownOpt ∧ ¬ Exceeds o) ∧
          SetBy durationMs initialSettings (ps.flatMap Phrase.options) s' ∧
          readableLater s'.withFile.filePath = false) ∧
      (mainArguments durationMs readable readableLater (program :: args) = .ok (.inl .success) ↔
        ∃ ps, Accepted readable ps args ∧ ∃ o ∈ ps.flatMap Phrase.options, AsksForText o) ∧
      ((∃ e, mainArguments durationMs readable readableLater (program :: args) = .error e) ↔
        ∃ ps before o after, Accepted readable ps args ∧
          (∀ o ∈ ps.flatMap Phrase.options, ¬ AsksForText o) ∧
          ps.flatMap Phrase.options = before ++ o :: after ∧
          (∀ o ∈ before, o.index ≠ .unknownOpt) ∧ Exceeds o) := by
  have hcases := mainArguments_cases durationMs readable readableLater program args
  refine ⟨fun s => ⟨fun h => ?_, ?_⟩, ⟨fun h => ?_, ?_⟩, ⟨fun h => ?_, ?_⟩, ⟨fun h => ?_, ?_⟩⟩
  · rcases hcases with hmain | ⟨ps, hps, ⟨-, hmain⟩ | ⟨ha, hmain⟩⟩
    · simp [hmain] at h
    · simp [hmain] at h
    · obtain ⟨s', happly, hfile, hread⟩ := applied_goesOn hps.checked (hmain ▸ h)
      obtain ⟨hknown, hset⟩ := (applyOptions_success hps.checked).mp happly
      exact ⟨ps, s', hps, fun o ho => ⟨ha o ho, hknown o ho⟩, hset, hfile, hread⟩
  · rintro ⟨ps, s', hps, hopts, hset, rfl, hread⟩
    have happly := (applyOptions_success hps.checked).mpr ⟨fun o ho => (hopts o ho).2, hset⟩
    rw [mainArguments_applied hps fun o ho => (hopts o ho).1, happly]
    simp [Except.map, afterArguments, hread]
  · rcases hcases with hmain | ⟨ps, hps, ⟨-, hmain⟩ | ⟨ha, hmain⟩⟩
    · simp [hmain] at h
    · simp [hmain] at h
    · obtain ⟨s', happly, hread⟩ := (applied_missing hps.checked).mp (hmain ▸ h)
      obtain ⟨hknown, hset⟩ := (applyOptions_success hps.checked).mp happly
      exact ⟨ps, s', hps, fun o ho => ⟨ha o ho, hknown o ho⟩, hset, hread⟩
  · rintro ⟨ps, s', hps, hopts, hset, hread⟩
    rw [mainArguments_applied hps fun o ho => (hopts o ho).1]
    exact (applied_missing hps.checked).mpr
      ⟨s', (applyOptions_success hps.checked).mpr ⟨fun o ho => (hopts o ho).2, hset⟩, hread⟩
  · rcases hcases with hmain | ⟨ps, hps, ⟨ha, -⟩ | ⟨-, hmain⟩⟩
    · simp [hmain] at h
    · exact ⟨ps, hps, ha⟩
    · exact absurd (hmain ▸ h) (applied_not_success hps.checked)
  · rintro ⟨ps, hps, ha⟩
    exact mainArguments_asked hps ha
  · rcases hcases with hmain | ⟨ps, hps, ⟨-, hmain⟩ | ⟨ha, hmain⟩⟩
    · simp [hmain] at h
    · simp [hmain] at h
    · rw [hmain, applied_error, applyOptions_error hps.checked] at h
      obtain ⟨before, o, after, hos, hbefore, he⟩ := h
      exact ⟨ps, before, o, after, hps, ha, hos, hbefore, he⟩
  · rintro ⟨ps, before, o, after, hps, ha, hos, hbefore, he⟩
    rw [mainArguments_applied hps ha]
    exact (applied_error _).mpr ((applyOptions_error hps.checked).mpr ⟨before, o, after, hos, hbefore, he⟩)

/-- The file for `-dc` is the next word, and the last filter is in force. -/
example :
    mainArguments Int.toNat (fun _ => true) (fun _ => true)
        ["ddsrouter".toList, "-t5".toList, "-dc".toList, "lan.yaml".toList, "--log-filter=LAN".toList,
          "--debug=no".toList, "--log-filter".toList, "--".toList] =
      .ok (.inr ⟨"lan.yaml".toList, 0, 5000, "--".toList, .info⟩) := by
  decide +kernel

/-- A number that the check accepts ends the tool, and the one before it wraps around. -/
example :
    mainArguments Int.toNat (fun _ => true) (fun _ => true)
        ["ddsrouter".toList, "-r".toList, "9223372036854775808".toList] = .error .outOfRange ∧
      toMilliseconds "9223372036854775807".toList = .ok (-1000) := by
  decide +kernel

end Main

end DDSRouter.Tool
