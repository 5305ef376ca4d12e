import Mathlib.Data.List.Find
import DDSRouter.OptionParser
import DDSRouter.ToolProcess

/-!
# The arguments of the tool

`parse_arguments` with the options of the tool, and what `main` makes of its result. Files
are asked three times whether they can be read: in both passes of the parser and in
`main`, and the answers can differ.
-/
namespace DDSRouter.Tool

open OptionParser

inductive OptionIndex where
  | unknownOpt | help | configurationFile | reloadTime | activateDebug | version | timeout | logFilter | logVerbosity
  deriving DecidableEq, Repr

/-- The position of an option in the array of options. -/
def OptionIndex.number : OptionIndex → Nat
  | unknownOpt => 0
  | help => 1
  | configurationFile => 2
  | reloadTime => 3
  | activateDebug => 4
  | version => 5
  | timeout => 6
  | logFilter => 7
  | logVerbosity => 8

inductive LogKind where
  | error | warning | info
  deriving DecidableEq, Repr

def stringVectorLogKind : List (List Char) := ["error".toList, "warning".toList, "info".toList]

/-! ### Numbers -/

/-- What ends `parse_arguments` without a return: an exception that nothing catches, or
a null pointer that is read. -/
inductive Abort where
  | invalidArgument | outOfRange | nullPointer | notALogKind
  deriving DecidableEq, Repr

def fromStringLogKind (text : List Char) : Except Abort LogKind :=
  if text = "error".toList then .ok .error
  else if text = "warning".toList then .ok .warning
  else if text = "info".toList then .ok .info
  else .error .notALogKind

def isspace (c : Char) : Bool := c = ' ' || (9 ≤ c.toNat && c.toNat ≤ 13)

def digitsValue (digits : List Char) : Nat := digits.foldl (fun n c => 10 * n + (c.toNat - '0'.toNat)) 0

def strtolDigits (negative : Bool) (text : List Char) : Option (Int × List Char) :=
  let digits := text.takeWhile Char.isDigit
  if digits.isEmpty then none
  else some (if negative then -(digitsValue digits : Int) else digitsValue digits, text.dropWhile Char.isDigit)

/-- The number at the beginning of a text and what stands behind it. -/
def strtol (text : List Char) : Option (Int × List Char) :=
  match text.dropWhile isspace with
  | '-' :: text => strtolDigits true text
  | '+' :: text => strtolDigits false text
  | text => strtolDigits false text

/-- The numbers that a `long` holds. -/
def InLong (v : Int) : Prop := -(2 ^ 63) ≤ v ∧ v < 2 ^ 63

instance (v : Int) : Decidable (InLong v) := inferInstanceAs (Decidable (_ ∧ _))

def stol (text : List Char) : Except Abort Int :=
  match strtol text with
  | none => .error .invalidArgument
  | some (v, _) => if InLong v then .ok v else .error .outOfRange

/-- A product of `long`s as the compiled code has it, which wraps around. -/
def wrapLong (v : Int) : Int := v.bmod (2 ^ 64)

theorem wrapLong_of_inLong {v : Int} (h : InLong v) : wrapLong v = v :=
  Int.bmod_eq_of_le (by have := h.1; omega) (by have := h.2; omega)

/-- `std::stol(opt.arg) * 1000`. -/
def toMilliseconds (text : List Char) : Except Abort Int := do
  let v ← stol text
  return wrapLong (v * 1000)

/-! ### The options -/

namespace Arg

def none : Option (List Char) → ArgStatus := fun _ => .none

def numeric : Option (List Char) → ArgStatus
  | .none => .illegal
  | some arg =>
    match strtol arg with
    | some (_, []) => .ok
    | _ => .illegal

def string : Option (List Char) → ArgStatus
  | .none => .illegal
  | some _ => .ok

def readableFile (readable : List Char → Bool) : Option (List Char) → ArgStatus
  | .none => .illegal
  | some arg => if readable arg then .ok else .illegal

def validOptions (options : List (List Char)) : Option (List Char) → ArgStatus
  | .none => .illegal
  | some arg => if arg ∈ options then .ok else .illegal

def logKindCorrectArgument : Option (List Char) → ArgStatus := validOptions stringVectorLogKind

end Arg

/-- Entries without names are headings of the help text. -/
def usage (readable : List Char → Bool) : List (Descriptor OptionIndex) :=
  [⟨.unknownOpt, "".toList, "".toList, Arg.none⟩,
    ⟨.unknownOpt, "".toList, "".toList, Arg.none⟩,
    ⟨.help, "h".toList, "help".toList, Arg.none⟩,
    ⟨.version, "v".toList, "version".toList, Arg.none⟩,
    ⟨.unknownOpt, "".toList, "".toList, Arg.none⟩,
    ⟨.configurationFile, "c".toList, "config-path".toList, Arg.readableFile readable⟩,
    ⟨.reloadTime, "r".toList, "reload-time".toList, Arg.numeric⟩,
    ⟨.timeout, "t".toList, "timeout".toList, Arg.numeric⟩,
    ⟨.unknownOpt, "".toList, "".toList, Arg.none⟩,
    ⟨.activateDebug, "d".toList, "debug".toList, Arg.none⟩,
    ⟨.logFilter, "".toList, "log-filter".toList, Arg.string⟩,
    ⟨.logVerbosity, "".toList, "log-verbosity".toList, Arg.logKindCorrectArgument⟩,
    ⟨.unknownOpt, "".toList, "".toList, Arg.none⟩]

/-! ### Parsing -/

/-- Times are in milliseconds. -/
structure Settings where
  filePath : List Char
  reloadTime : Nat
  timeout : Nat
  logFilter : List Char
  logVerbosity : LogKind
  deriving DecidableEq, Repr

section Parsing

variable (durationMs : Int → Nat)

def charPointer : Option (List Char) → Except Abort (List Char)
  | none => .error .nullPointer
  | some arg => .ok arg

/-- The loop over the options. -/
def applyOptions : Settings → List (ParsedOption OptionIndex) → Except Abort (ProcessReturnCode × Settings)
  | s, [] => .ok (.success, s)
  | s, o :: os =>
    match o.index with
    | .configurationFile => do
      let arg ← charPointer o.arg
      applyOptions { s with filePath := arg } os
    | .reloadTime => do
      let arg ← charPointer o.arg
      let ms ← toMilliseconds arg
      applyOptions { s with reloadTime := durationMs ms } os
    | .activateDebug => applyOptions { s with logFilter := "DDSROUTER".toList, logVerbosity := .info } os
    | .timeout => do
      let arg ← charPointer o.arg
      let ms ← toMilliseconds arg
      applyOptions { s with timeout := durationMs ms } os
    | .logFilter => do
      let arg ← charPointer o.arg
      applyOptions { s with logFilter := arg } os
    | .logVerbosity => do
      let arg ← charPointer o.arg
      let kind ← fromStringLogKind arg
      applyOptions { s with logVerbosity := kind } os
    | .unknownOpt => .ok (.incorrectArgument, s)
    | .help | .version => applyOptions s os

/-- The first argument is the name of the program. -/
def parseArguments (readable : List Char → Bool) (s : Settings) :
    List (List Char) → Except Abort (ProcessReturnCode × Settings)
  | [] => .ok (.incorrectArgument, s)
  | _ :: args =>
    let parse := Parser.parse (usage readable) args
    if parse.error then .ok (.incorrectArgument, s)
    else if parse.nonOptions ≠ [] then .ok (.incorrectArgument, s)
    else if parse.buffer.any fun o => o.index = .help then .ok (.helpArgument, s)
    else if parse.buffer.any fun o => o.index = .version then .ok (.versionArgument, s)
    else applyOptions durationMs s parse.buffer

def defaultConfigurationFileName : List Char := "DDS_ROUTER_CONFIGURATION.yaml".toList

def initialSettings : Settings where
  filePath := []
  reloadTime := 0
  timeout := 0
  logFilter := "DDSROUTER".toList
  logVerbosity := .warning

/-- `main` takes the default file if none was given. -/
def Settings.withFile (s : Settings) : Settings :=
  { s with filePath := if s.filePath = [] then defaultConfigurationFileName else s.filePath }

def afterArguments (readableLater : List Char → Bool) : ProcessReturnCode × Settings → ProcessReturnCode ⊕ Settings
  | (.helpArgument, _) => .inl .success
  | (.versionArgument, _) => .inl .success
  | (.success, s) => if readableLater s.withFile.filePath then .inr s.withFile else .inl .requiredArgumentFailed
  | (code, _) => .inl code

/-- The beginning of `main`: it returns a code, or goes on with settings. -/
def mainArguments (readable readableLater : List Char → Bool) (argv : List (List Char)) :
    Except Abort (ProcessReturnCode ⊕ Settings) :=
  (parseArguments durationMs readable initialSettings argv).map (afterArguments readableLater)

end Parsing

/-! ### Command lines -/

/-- Options without an argument. -/
inductive Flag where
  | help | version | activateDebug
  deriving DecidableEq, Repr

/-- Options with an argument. -/
inductive Valued where
  | configurationFile | reloadTime | timeout | logFilter | logVerbosity
  deriving DecidableEq, Repr

def Flag.index : Flag → OptionIndex
  | help => .help
  | version => .version
  | activateDebug => .activateDebug

def Flag.name : Flag → List Char
  | help => "help".toList
  | version => "version".toList
  | activateDebug => "debug".toList

namespace Valued

def index : Valued → OptionIndex
  | configurationFile => .configurationFile
  | reloadTime => .reloadTime
  | timeout => .timeout
  | logFilter => .logFilter
  | logVerbosity => .logVerbosity

def name : Valued → List Char
  | configurationFile => "config-path".toList
  | reloadTime => "reload-time".toList
  | timeout => "timeout".toList
  | logFilter => "log-filter".toList
  | logVerbosity => "log-verbosity".toList

def letter : Valued → Option Char
  | configurationFile => some 'c'
  | reloadTime => some 'r'
  | timeout => some 't'
  | logFilter | logVerbosity => none

/-- The values that an option takes. -/
def Takes (readable : List Char → Bool) : Valued → List Char → Prop
  | configurationFile, v => readable v = true
  | reloadTime, v | timeout, v => ∃ n, strtol v = some (n, [])
  | logFilter, _ => True
  | logVerbosity, v => v ∈ stringVectorLogKind

end Valued

/-- The option that a letter stands for if it has no argument. -/
def letterIndex (c : Char) : OptionIndex :=
  if c = 'h' then .help else if c = 'v' then .version else if c = 'd' then .activateDebug else .unknownOpt

/-- A group of letters without arguments. -/
def Plain (l : List Char) : Prop := ∀ c ∈ l, ∀ o : Valued, o.letter ≠ some c

/-- One or two words of a command line. A flag may be followed by a text that is ignored. -/
inductive Phrase where
  | flag (o : Flag) (ignored : Option (List Char))
  | unknown (name : List Char)
  | valued (o : Valued) (attached : Bool) (v : List Char)
  | group (l : List Char)
  | groupValued (l : List Char) (o : Valued) (letter : Char) (attached : Bool) (v : List Char)

namespace Phrase

def words : Phrase → List (List Char)
  | flag o none => ['-' :: '-' :: o.name]
  | flag o (some ignored) => ['-' :: '-' :: (o.name ++ '=' :: ignored)]
  | unknown name => ['-' :: '-' :: name]
  | valued o true v => ['-' :: '-' :: (o.name ++ '=' :: v)]
  | valued o false v => ['-' :: '-' :: o.name, v]
  | group l => ['-' :: l]
  | groupValued l _ letter true v => ['-' :: (l ++ letter :: v)]
  | groupValued l _ letter false v => ['-' :: (l ++ [letter]), v]

def options : Phrase → List (ParsedOption OptionIndex)
  | flag o _ => [⟨o.index, none⟩]
  | unknown _ => [⟨.unknownOpt, none⟩]
  | valued o _ v => [⟨o.index, some v⟩]
  | group l => l.map fun c => ⟨letterIndex c, none⟩
  | groupValued l o _ _ v => l.map (fun c => ⟨letterIndex c, none⟩) ++ [⟨o.index, some v⟩]

/-- The name of a long option is what stands before a `=`. -/
def key (name : List Char) : List Char := name.takeWhile (· ≠ '=')

/-- A phrase that a command line can contain: what makes it readable in one way only, and
that values are taken. -/
def Valid (readable : List Char → Bool) : Phrase → Prop
  | flag _ _ => True
  | unknown name => name ≠ [] ∧ (∀ o : Flag, key name ≠ o.name) ∧ ∀ o : Valued, key name ≠ o.name
  | valued o _ v => o.Takes readable v
  | group l => l ≠ [] ∧ l.head? ≠ some '-' ∧ Plain l
  | groupValued l o letter attached v =>
    l.head? ≠ some '-' ∧ Plain l ∧ o.letter = some letter ∧ (attached = true → v ≠ []) ∧ o.Takes readable v

end Phrase

/-- The phrases make up the words, which may end with `--`. -/
def Spells (ps : List Phrase) (args : List (List Char)) : Prop :=
  args = ps.flatMap Phrase.words ∨ args = ps.flatMap Phrase.words ++ [['-', '-']]

section Reading

variable {readable : List Char → Bool}

theorem streq_iff {name text : List Char} (h : '=' ∉ name) : streq name text = true ↔ Phrase.key text = name := by
  induction name generalizing text with
  | nil =>
    cases text with
    | nil => simp [streq, Phrase.key]
    | cons d text => by_cases hd : d = '=' <;> simp [streq, Phrase.key, hd]
  | cons c name ih =>
    cases text with
    | nil => simp [streq, Phrase.key]
    | cons d text =>
      have hc : c ≠ '=' := fun hc => h (hc ▸ List.mem_cons_self)
      have hname : '=' ∉ name := fun hm => h (List.mem_cons_of_mem c hm)
      have hih : streq name text = true ↔ Phrase.key text = name := ih hname
      by_cases hd : d = c
      · subst hd
        simpa [streq, Phrase.key, hc] using hih
      · have hcd : c ≠ d := Ne.symm hd
        by_cases hde : d = '='
        · simp [streq, Phrase.key, hde, hc]
        · simp [streq, Phrase.key, hde, hcd, hd]

def Valued.checkArg (readable : List Char → Bool) : Valued → Option (List Char) → ArgStatus
  | .configurationFile => Arg.readableFile readable
  | .reloadTime | .timeout => Arg.numeric
  | .logFilter => Arg.string
  | .logVerbosity => Arg.logKindCorrectArgument

theorem numeric_ok_iff {v : List Char} : Arg.numeric (some v) = .ok ↔ ∃ n, strtol v = some (n, []) := by
  simp only [Arg.numeric]
  split
  · rename_i n h
    simp [h]
  · rename_i hne
    simp only [reduceCtorEq, false_iff, not_exists]
    exact fun n hn => hne n hn

theorem numeric_cases (arg : Option (List Char)) : Arg.numeric arg = .ok ∨ Arg.numeric arg = .illegal := by
  cases arg with
  | none => exact .inr rfl
  | some v =>
    simp only [Arg.numeric]
    split
    · exact .inl rfl
    · exact .inr rfl

/-- Options with an argument have it judged: they take it, or the parse ends. -/
theorem Valued.checkArg_cases (readable : List Char → Bool) (o : Valued) (arg : Option (List Char)) :
    o.checkArg readable arg = .ok ∨ o.checkArg readable arg = .illegal := by
  cases o with
  | reloadTime => exact numeric_cases arg
  | timeout => exact numeric_cases arg
  | configurationFile =>
    cases arg with
    | none => exact .inr rfl
    | some v => cases h : readable v <;> simp [checkArg, Arg.readableFile, h]
  | logFilter => cases arg <;> simp [checkArg, Arg.string]
  | logVerbosity =>
    cases arg with
    | none => exact .inr rfl
    | some v =>
      by_cases h : v ∈ stringVectorLogKind <;> simp [checkArg, Arg.logKindCorrectArgument, Arg.validOptions, h]

theorem Valued.checkArg_none (o : Valued) : o.checkArg readable none = .illegal := by
  cases o <;> rfl

theorem Valued.checkArg_some {o : Valued} {v : List Char} :
    o.checkArg readable (some v) = .ok ↔ o.Takes readable v := by
  cases o with
  | reloadTime => exact numeric_ok_iff
  | timeout => exact numeric_ok_iff
  | configurationFile => simp [checkArg, Arg.readableFile, Takes]
  | logFilter => simp [checkArg, Arg.string, Takes]
  | logVerbosity => simp [checkArg, Arg.logKindCorrectArgument, Arg.validOptions, Takes]

/-! ### Which entry a name or a letter finds -/

theorem find?_key (name : List Char) :
    (usage readable).find? (fun d => streq d.longopt name) =
      (usage readable).find? fun d => d.longopt = Phrase.key name := by
  refine List.find?_congr fun d hd => ?_
  have hnames : ∀ longopt ∈ (usage fun _ => true).map Descriptor.longopt, '=' ∉ longopt := by decide
  have hmem : d.longopt ∈ (usage readable).map Descriptor.longopt := List.mem_map_of_mem hd
  have hno : '=' ∉ d.longopt := hnames _ hmem
  rw [Bool.eq_iff_iff, streq_iff hno, decide_eq_true_iff]
  exact eq_comm

theorem descriptorOf_flag (readable : List Char → Bool) {o : Flag} {name : List Char} (h : Phrase.key name = o.name) :
    ∃ short, descriptorOf (usage readable) (fun d => streq d.longopt name) =
      some ⟨o.index, short, o.name, Arg.none⟩ := by
  rw [descriptorOf, find?_key, h]
  cases o <;> exact ⟨_, rfl⟩

theorem descriptorOf_valued (readable : List Char → Bool) {o : Valued} {name : List Char}
    (h : Phrase.key name = o.name) :
    ∃ short, descriptorOf (usage readable) (fun d => streq d.longopt name) =
      some ⟨o.index, short, o.name, o.checkArg readable⟩ := by
  rw [descriptorOf, find?_key, h]
  cases o <;> exact ⟨_, rfl⟩

theorem descriptorOf_unknown {name : List Char} (hf : ∀ o : Flag, Phrase.key name ≠ o.name)
    (hv : ∀ o : Valued, Phrase.key name ≠ o.name) :
    descriptorOf (usage readable) (fun d => streq d.longopt name) = some ⟨.unknownOpt, [], [], Arg.none⟩ := by
  rw [descriptorOf, find?_key]
  generalize Phrase.key name = k at hf hv
  by_cases hk : k = []
  · subst hk
    rfl
  · have hnone : (usage readable).find? (fun d => d.longopt = k) = none := by
      rw [List.find?_eq_none]
      intro d hd
      simp only [usage, List.mem_cons, List.not_mem_nil, or_false] at hd
      rw [decide_eq_true_iff]
      rcases hd with rfl | rfl | rfl | rfl | rfl | rfl | rfl | rfl | rfl | rfl | rfl | rfl | rfl
      · exact Ne.symm hk
      · exact Ne.symm hk
      · exact Ne.symm (hf .help)
      · exact Ne.symm (hf .version)
      · exact Ne.symm hk
      · exact Ne.symm (hv .configurationFile)
      · exact Ne.symm (hv .reloadTime)
      · exact Ne.symm (hv .timeout)
      · exact Ne.symm hk
      · exact Ne.symm (hf .activateDebug)
      · exact Ne.symm (hv .logFilter)
      · exact Ne.symm (hv .logVerbosity)
      · exact Ne.symm hk
    rw [hnone]
    rfl

theorem descriptorOf_letter (readable : List Char → Bool) {o : Valued} {c : Char} (h : o.letter = some c) :
    ∃ short, descriptorOf (usage readable) (fun d => instr c d.shortopt) =
      some ⟨o.index, short, o.name, o.checkArg readable⟩ := by
  cases o <;> cases h <;> exact ⟨_, rfl⟩

theorem descriptorOf_plain (readable : List Char → Bool) {c : Char} (h : ∀ o : Valued, o.letter ≠ some c) :
    ∃ short long, descriptorOf (usage readable) (fun d => instr c d.shortopt) =
      some ⟨letterIndex c, short, long, Arg.none⟩ := by
  by_cases hh : c = 'h'
  · subst hh
    exact ⟨_, _, rfl⟩
  by_cases hv : c = 'v'
  · subst hv
    exact ⟨_, _, rfl⟩
  by_cases hd : c = 'd'
  · subst hd
    exact ⟨_, _, rfl⟩
  have hc : c ≠ 'c' := fun hc => h .configurationFile (by rw [hc]; rfl)
  have hr : c ≠ 'r' := fun hr => h .reloadTime (by rw [hr]; rfl)
  have ht : c ≠ 't' := fun ht => h .timeout (by rw [ht]; rfl)
  refine ⟨[], [], ?_⟩
  rw [letterIndex, if_neg hh, if_neg hv, if_neg hd]
  simp [descriptorOf, usage, instr, hh, hv, hd, hc, hr, ht]

/-! ### Phrases are read as what they say -/

theorem Flag.notMem_name (o : Flag) : '=' ∉ o.name := by
  cases o <;> decide

theorem Valued.notMem_name (o : Valued) : '=' ∉ o.name := by
  cases o <;> decide

namespace Phrase

theorem key_cons {c : Char} (h : c ≠ '=') (name : List Char) : key (c :: name) = c :: key name := by
  simp [key, h]

theorem key_append {name : List Char} (h : '=' ∉ name) (v : List Char) : key (name ++ '=' :: v) = name := by
  induction name with
  | nil => rfl
  | cons c name ih =>
    have hc : c ≠ '=' := fun hc => h (hc ▸ List.mem_cons_self)
    rw [List.cons_append, key_cons hc, ih fun hm => h (List.mem_cons_of_mem c hm)]

theorem key_self {name : List Char} (h : '=' ∉ name) : key name = name := by
  induction name with
  | nil => rfl
  | cons c name ih =>
    have hc : c ≠ '=' := fun hc => h (hc ▸ List.mem_cons_self)
    rw [key_cons hc, ih fun hm => h (List.mem_cons_of_mem c hm)]

theorem key_cases (name : List Char) : name = key name ∨ ∃ v, name = key name ++ '=' :: v := by
  induction name with
  | nil => exact .inl rfl
  | cons c name ih =>
    by_cases hc : c = '='
    · subst hc
      exact .inr ⟨name, rfl⟩
    · rw [key_cons hc]
      rcases ih with ih | ⟨v, ih⟩
      · exact .inl (congrArg (c :: ·) ih)
      · exact .inr ⟨v, congrArg (c :: ·) ih⟩

end Phrase

theorem ofLong_name {name : List Char} (h : '=' ∉ name) (next : Option (List Char)) :
    OptArg.ofLong next name = .ofNext next := by
  induction name with
  | nil => rfl
  | cons c name ih =>
    have hc : c ≠ '=' := fun hc => h (hc ▸ List.mem_cons_self)
    rw [OptArg.ofLong, if_neg hc]
    exact ih fun hm => h (List.mem_cons_of_mem c hm)

theorem ofLong_attached {name : List Char} (h : '=' ∉ name) (next : Option (List Char)) (v : List Char) :
    OptArg.ofLong next (name ++ '=' :: v) = .attached v := by
  induction name with
  | nil => rfl
  | cons c name ih =>
    have hc : c ≠ '=' := fun hc => h (hc ▸ List.mem_cons_self)
    rw [List.cons_append, OptArg.ofLong, if_neg hc]
    exact ih fun hm => h (List.mem_cons_of_mem c hm)

theorem readParam_group {l : List Char} (h : l.head? ≠ some '-') (next : Option (List Char)) :
    readParam (usage readable) next ('-' :: l) = readGroup (usage readable) next l := by
  unfold readParam
  split
  · rename_i heq
    simp only [List.cons.injEq, true_and] at heq
    simp [heq] at h
  · rename_i heq
    simp only [List.cons.injEq, true_and] at heq
    rw [heq]
  · rename_i hne
    exact absurd rfl (hne l)

theorem isOption_group {l : List Char} (hl : l ≠ []) (h : l.head? ≠ some '-') : IsOption ('-' :: l) := by
  cases l with
  | nil => exact absurd rfl hl
  | cons c l =>
    refine ⟨rfl, fun heq => h ?_⟩
    simp only [List.cons.injEq, true_and] at heq
    rw [heq.1]
    rfl

theorem isOption_long {name : List Char} (h : name ≠ []) : IsOption ('-' :: '-' :: name) :=
  ⟨rfl, by simpa using h⟩

theorem readOption_plain {c : Char} (h : ∀ o : Valued, o.letter ≠ some c) (arg : OptArg) :
    readOption arg (descriptorOf (usage readable) fun d => instr c d.shortopt) = ([⟨letterIndex c, none⟩], .next) := by
  obtain ⟨short, long, hd⟩ := descriptorOf_plain readable h
  rw [hd]
  rfl

theorem readGroup_append {l : List Char} (h : Plain l) (next : Option (List Char)) (rest : List Char) :
    readGroup (usage readable) next (l ++ rest) =
      (l.map (fun c => ⟨letterIndex c, none⟩) ++ (readGroup (usage readable) next rest).1,
        (readGroup (usage readable) next rest).2) := by
  induction l with
  | nil => rfl
  | cons c l ih =>
    rw [List.cons_append, readGroup, readOption_plain (h c List.mem_cons_self),
      ih fun d hd => h d (List.mem_cons_of_mem c hd)]
    rfl

theorem readGroup_letter {o : Valued} {c : Char} (hc : o.letter = some c) (next : Option (List Char))
    (rest : List Char) :
    readGroup (usage readable) next (c :: rest) =
      match o.checkArg readable (OptArg.ofShort next rest).value with
      | .ok => ([⟨o.index, (OptArg.ofShort next rest).value⟩], .taken (OptArg.ofShort next rest).isDetached)
      | _ => ([], .fatal) := by
  obtain ⟨short, hd⟩ := descriptorOf_letter readable hc
  rw [readGroup, hd, readOption]
  rcases o.checkArg_cases readable (OptArg.ofShort next rest).value with h | h
  · simp [h]
  · simp [h]

theorem readOption_valued {o : Valued} {name : List Char} (h : Phrase.key name = o.name) (arg : OptArg) :
    readOption arg (descriptorOf (usage readable) fun d => streq d.longopt name) =
      match o.checkArg readable arg.value with
      | .ok => ([⟨o.index, arg.value⟩], .taken arg.isDetached)
      | _ => ([], .fatal) := by
  obtain ⟨short, hd⟩ := descriptorOf_valued readable h
  rw [hd, readOption]
  rcases o.checkArg_cases readable arg.value with h | h
  · simp [h]
  · simp [h]

/-- A phrase at the beginning of a command line is read as its options. -/
theorem scan_phrase {p : Phrase} (h : p.Valid readable) (args : List (List Char)) :
    scan (usage readable) (p.words ++ args) =
      (p.options ++ (scan (usage readable) args).1, (scan (usage readable) args).2) := by
  cases p with
  | flag o ignored =>
    have hname : o.name ≠ [] := by cases o <;> decide
    cases ignored with
    | none =>
      obtain ⟨short, hd⟩ := descriptorOf_flag readable (Phrase.key_self o.notMem_name)
      rw [Phrase.words, List.singleton_append, scan_option (isOption_long hname), readParam, hd]
      rfl
    | some v =>
      obtain ⟨short, hd⟩ := descriptorOf_flag readable (Phrase.key_append o.notMem_name v)
      rw [Phrase.words, List.singleton_append, scan_option (isOption_long (by simp)), readParam, hd]
      rfl
  | unknown name =>
    obtain ⟨hname, hf, hv⟩ := h
    rw [Phrase.words, List.singleton_append, scan_option (isOption_long hname), readParam, descriptorOf_unknown hf hv]
    rfl
  | valued o attached v =>
    have hok : o.checkArg readable (some v) = .ok := Valued.checkArg_some.mpr h
    have hname : o.name ≠ [] := by cases o <;> decide
    cases attached with
    | true =>
      rw [Phrase.words, List.singleton_append, scan_option (isOption_long (by simp)), readParam,
        readOption_valued (Phrase.key_append o.notMem_name v), ofLong_attached o.notMem_name]
      simp [OptArg.value, OptArg.isDetached, hok, scanAfter, Phrase.options]
    | false =>
      rw [Phrase.words, List.cons_append, List.singleton_append, scan_option (isOption_long hname), readParam,
        readOption_valued (Phrase.key_self o.notMem_name), ofLong_name o.notMem_name]
      simp [OptArg.ofNext, OptArg.value, OptArg.isDetached, hok, scanAfter, Phrase.options]
  | group l =>
    obtain ⟨hl, hhead, hplain⟩ := h
    have hread : readGroup (usage readable) args.head? (l ++ []) = _ := readGroup_append hplain args.head? []
    rw [List.append_nil] at hread
    rw [Phrase.words, List.singleton_append, scan_option (isOption_group hl hhead), readParam_group hhead, hread]
    simp [readGroup, scanAfter, Phrase.options]
  | groupValued l o letter attached v =>
    obtain ⟨hhead, hplain, hletter, hne, htakes⟩ := h
    have hok : o.checkArg readable (some v) = .ok := Valued.checkArg_some.mpr htakes
    have hminus : letter ≠ '-' := by
      rintro rfl
      cases o <;> simp [Valued.letter] at hletter
    have hhead' : ∀ rest, (l ++ letter :: rest).head? ≠ some '-' := by
      intro rest
      cases l with
      | nil => simpa using hminus
      | cons c l => simpa using hhead
    cases attached with
    | true =>
      obtain ⟨c, v, rfl⟩ := List.exists_cons_of_ne_nil (hne rfl)
      rw [Phrase.words, List.singleton_append, scan_option (isOption_group (by simp) (hhead' _)),
        readParam_group (hhead' _), readGroup_append hplain, readGroup_letter hletter]
      simp [OptArg.ofShort, OptArg.value, OptArg.isDetached, hok, scanAfter, Phrase.options]
    | false =>
      rw [Phrase.words, List.cons_append, List.singleton_append, scan_option (isOption_group (by simp) (hhead' _)),
        readParam_group (hhead' _), readGroup_append hplain, readGroup_letter hletter]
      simp [OptArg.ofShort, OptArg.ofNext, OptArg.value, OptArg.isDetached, hok, scanAfter, Phrase.options]

theorem scan_spells {ps : List Phrase} {args : List (List Char)} (hps : ∀ p ∈ ps, p.Valid readable)
    (h : Spells ps args) : scan (usage readable) args = (ps.flatMap Phrase.options, some []) := by
  have hrest : ∀ rest, scan (usage readable) (ps.flatMap Phrase.words ++ rest) =
      (ps.flatMap Phrase.options ++ (scan (usage readable) rest).1, (scan (usage readable) rest).2) := by
    intro rest
    clear h
    induction ps with
    | nil => rfl
    | cons p ps ih =>
      rw [List.flatMap_cons, List.append_assoc, scan_phrase (hps p List.mem_cons_self),
        ih fun q hq => hps q (List.mem_cons_of_mem p hq), List.flatMap_cons, List.append_assoc]
  rcases h with rfl | rfl
  · have hend := hrest []
    simpa [scan] using hend
  · rw [hrest]
    simp [scan, isNonOption]

/-! ### What is read was spelled in phrases -/

/-- A group is letters without arguments, and maybe one with an argument behind them. -/
theorem readGroup_cases (l : List Char) :
    Plain l ∨ ∃ l' o c rest, l = l' ++ c :: rest ∧ Plain l' ∧ Valued.letter o = some c := by
  induction l with
  | nil => exact .inl fun c hc => by cases hc
  | cons c l ih =>
    by_cases hc : ∃ o : Valued, o.letter = some c
    · obtain ⟨o, ho⟩ := hc
      exact .inr ⟨[], o, c, l, rfl, (fun c hc => by cases hc), ho⟩
    · have hplain : ∀ l', Plain l' → Plain (c :: l') := by
        intro l' hl' d hd
        rcases List.mem_cons.mp hd with rfl | hd
        · exact fun o ho => hc ⟨o, ho⟩
        · exact hl' d hd
      rcases ih with hl | ⟨l', o, d, rest, rfl, hl', ho⟩
      · exact .inl (hplain l hl)
      · exact .inr ⟨c :: l', o, d, rest, rfl, hplain l' hl', ho⟩

theorem phrase_of_long {name : List Char} {args : List (List Char)} (hname : name ≠ [])
    (hread : (readParam (usage readable) args.head? ('-' :: '-' :: name)).2 ≠ .fatal) :
    ∃ p : Phrase, p.Valid readable ∧ ∃ args', ('-' :: '-' :: name) :: args = p.words ++ args' := by
  by_cases hf : ∃ o : Flag, Phrase.key name = o.name
  · obtain ⟨o, ho⟩ := hf
    rcases Phrase.key_cases name with hkey | ⟨v, hkey⟩
    · exact ⟨.flag o none, trivial, args, by rw [Phrase.words, ← ho, ← hkey]; rfl⟩
    · exact ⟨.flag o (some v), trivial, args, by rw [Phrase.words, ← ho, ← hkey]; rfl⟩
  by_cases hv : ∃ o : Valued, Phrase.key name = o.name
  · obtain ⟨o, ho⟩ := hv
    rw [readParam, readOption_valued ho] at hread
    rcases Phrase.key_cases name with hkey | ⟨v, hkey⟩
    · -- the argument is the next word
      rw [hkey, ho, ofLong_name o.notMem_name] at hread
      cases args with
      | nil => simp [OptArg.ofNext, OptArg.value, Valued.checkArg_none] at hread
      | cons v args =>
        rcases o.checkArg_cases readable (some v) with hc | hc
        · refine ⟨.valued o false v, Valued.checkArg_some.mp hc, args, ?_⟩
          rw [Phrase.words, ← ho, ← hkey]
          rfl
        · simp [OptArg.ofNext, OptArg.value, hc] at hread
    · rw [hkey, ho, ofLong_attached o.notMem_name] at hread
      rcases o.checkArg_cases readable (some v) with hc | hc
      · refine ⟨.valued o true v, Valued.checkArg_some.mp hc, args, ?_⟩
        rw [Phrase.words, ← ho, ← hkey]
        rfl
      · simp [OptArg.value, hc] at hread
  · exact ⟨.unknown name, ⟨hname, fun o ho => hf ⟨o, ho⟩, fun o ho => hv ⟨o, ho⟩⟩, args, rfl⟩

theorem phrase_of_group {l : List Char} {args : List (List Char)} (hl : l ≠ []) (hhead : l.head? ≠ some '-')
    (hread : (readParam (usage readable) args.head? ('-' :: l)).2 ≠ .fatal) :
    ∃ p : Phrase, p.Valid readable ∧ ∃ args', ('-' :: l) :: args = p.words ++ args' := by
  rcases readGroup_cases l with hplain | ⟨l', o, c, rest, rfl, hplain, ho⟩
  · exact ⟨.group l, ⟨hl, hhead, hplain⟩, args, rfl⟩
  have hhead' : l'.head? ≠ some '-' := by
    cases l' with
    | nil => simp
    | cons d l' => simpa using hhead
  rw [readParam_group hhead, readGroup_append hplain, readGroup_letter ho] at hread
  cases rest with
  | nil =>
    cases args with
    | nil => simp [OptArg.ofShort, OptArg.ofNext, OptArg.value, Valued.checkArg_none] at hread
    | cons v args =>
      rcases o.checkArg_cases readable (some v) with hc | hc
      · exact ⟨.groupValued l' o c false v, ⟨hhead', hplain, ho, by simp, Valued.checkArg_some.mp hc⟩, args, rfl⟩
      · simp [OptArg.ofShort, OptArg.ofNext, OptArg.value, hc] at hread
  | cons d rest =>
    rcases o.checkArg_cases readable (some (d :: rest)) with hc | hc
    · exact ⟨.groupValued l' o c true (d :: rest), ⟨hhead', hplain, ho, by simp, Valued.checkArg_some.mp hc⟩, args, rfl⟩
    · simp [OptArg.ofShort, OptArg.value, hc] at hread

/-- A parameter that is read without an error begins a phrase. -/
theorem phrase_of_readParam {param : List Char} {args : List (List Char)} (h : IsOption param)
    (hread : (readParam (usage readable) args.head? param).2 ≠ .fatal) :
    ∃ p : Phrase, p.Valid readable ∧ ∃ args', param :: args = p.words ++ args' := by
  rcases isOption_cases h with ⟨name, hname, rfl⟩ | ⟨l, hl, hhead, rfl⟩
  · exact phrase_of_long hname hread
  · exact phrase_of_group hl hhead hread

/-- A command line that is read without an error and without words behind the options is
spelled in phrases. -/
theorem spells_of_scan {args : List (List Char)} (h : (scan (usage readable) args).2 = some []) :
    ∃ ps, (∀ p ∈ ps, Phrase.Valid readable p) ∧ Spells ps args := by
  match args with
  | [] => exact ⟨[], (fun p hp => by cases hp), .inl rfl⟩
  | param :: args =>
    by_cases hn : isNonOption param = true
    · rw [scan, if_pos hn] at h
      cases h
    by_cases hm : param = ['-', '-']
    · rw [scan, if_neg hn, if_pos hm] at h
      simp only [Option.some.injEq] at h
      subst h hm
      exact ⟨[], (fun p hp => by cases hp), .inr rfl⟩
    have hoption : IsOption param := ⟨by simpa using hn, hm⟩
    have hread : (readParam (usage readable) args.head? param).2 ≠ .fatal := by
      intro hfatal
      rw [scan_option hoption, scanAfter.eq_def] at h
      revert h hfatal
      generalize readParam (usage readable) args.head? param = r
      obtain ⟨os, e⟩ := r
      rintro h rfl
      cases h
    obtain ⟨p, hp, args', hargs⟩ := phrase_of_readParam hoption hread
    have hlt : args'.length < (param :: args).length := by
      have hpos : 0 < p.words.length := by
        cases p with
        | flag o ignored => cases ignored <;> simp [Phrase.words]
        | unknown name => simp [Phrase.words]
        | valued o attached v => cases attached <;> simp [Phrase.words]
        | group l => simp [Phrase.words]
        | groupValued l o letter attached v => cases attached <;> simp [Phrase.words]
      rw [hargs, List.length_append]
      omega
    rw [hargs, scan_phrase hp] at h
    obtain ⟨ps, hps, hspells⟩ := spells_of_scan h
    refine ⟨p :: ps, List.forall_mem_cons.mpr ⟨hp, hps⟩, ?_⟩
    rw [Spells, hargs, List.flatMap_cons, List.append_assoc]
    rcases hspells with rfl | rfl
    · exact .inl rfl
    · exact .inr rfl
termination_by args.length
decreasing_by exact hlt

theorem options_of_spells {ps : List Phrase} {args : List (List Char)} (hps : ∀ p ∈ ps, p.Valid readable)
    (h : Spells ps args) {os : List (ParsedOption OptionIndex)} {rest : Option (List (List Char))}
    (hscan : scan (usage readable) args = (os, rest)) : os = ps.flatMap Phrase.options := by
  rw [scan_spells hps h] at hscan
  exact (Prod.mk.inj hscan).1.symm

end Reading

/-! ### The room for the options -/

theorem usage_stricter {readable readableLater : List Char → Bool}
    (h : ∀ path, readableLater path = true → readable path = true) :
    List.Forall₂ Stricter (usage readable) (usage readableLater) := by
  have hfile : ∀ arg, Arg.readableFile readableLater arg = Arg.readableFile readable arg ∨
      Arg.readableFile readableLater arg = .illegal := by
    intro arg
    cases arg with
    | none => exact .inl rfl
    | some path =>
      cases hl : readableLater path with
      | false => exact .inr (by simp [Arg.readableFile, hl])
      | true => exact .inl (by simp [Arg.readableFile, hl, h path hl])
  unfold usage
  repeat' constructor
  all_goals first
    | exact hfile
    | exact fun arg => .inl rfl

/-- If no file becomes readable between the passes, the second one stores no more options
than the first one made room for, and each in its place. -/
theorem options_have_room {readable readableLater : List Char → Bool}
    (h : ∀ path, readableLater path = true → readable path = true) (args : List (List Char)) :
    (Parser.parse (usage readableLater) args).buffer.length ≤
        (Stats.create OptionIndex.number (usage readable) args).bufferMax ∧
      ∀ o ∈ (Parser.parse (usage readableLater) args).buffer,
        o.index.number + 1 < (Stats.create OptionIndex.number (usage readable) args).optionsMax := by
  refine ⟨length_buffer_le OptionIndex.number (usage_stricter h) args, fun o _ => ?_⟩
  have hentry : ∃ d ∈ usage readable, d.index = o.index := by
    generalize o.index = i
    cases i <;> simp [usage]
  obtain ⟨d, hd, hi⟩ := hentry
  rw [← hi]
  exact index_lt_optionsMax OptionIndex.number args hd

/-- A file that only the first pass can read. -/
def debugThenFile : List (List Char) := ["-d".toList, "-c".toList, "lan.yaml".toList]

theorem debugThenFile_has_room :
    ((Parser.parse (usage fun _ => false) debugThenFile).buffer.length ≤
        (Stats.create OptionIndex.number (usage fun _ => true) debugThenFile).bufferMax ∧
      ∀ o ∈ (Parser.parse (usage fun _ => false) debugThenFile).buffer,
        o.index.number + 1 < (Stats.create OptionIndex.number (usage fun _ => true) debugThenFile).optionsMax) ∧
      (Parser.parse (usage fun _ => false) debugThenFile).buffer.length = 1 ∧
      (Stats.create OptionIndex.number (usage fun _ => true) debugThenFile).bufferMax = 3 :=
  ⟨options_have_room (fun _ h => by cases h) debugThenFile, by decide +kernel, by decide +kernel⟩

/-- A file that becomes readable between the passes leaves an option without a place. -/
example :
    (Stats.create OptionIndex.number (usage fun _ => false) ["-c".toList, "lan.yaml".toList, "-d".toList]).bufferMax <
      (Parser.parse (usage fun _ => true) ["-c".toList, "lan.yaml".toList, "-d".toList]).buffer.length := by
  decide +kernel

end DDSRouter.Tool
