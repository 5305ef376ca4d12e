import Mathlib.Data.List.Forall2

/-!
# The option parser

The parser of command lines that the tool is built with, in the mode the tool uses it in:
options come before all other arguments and long options are written out. A first pass
counts the options and a second one stores them, so that what is done for an option is a
parameter of the pass.
-/
namespace DDSRouter.OptionParser

inductive ArgStatus where
  | none | ok | ignore | illegal
  deriving DecidableEq, Repr

/-- `checkArg` judges the argument that an option could have. -/
structure Descriptor (ι : Type) where
  index : ι
  shortopt : List Char
  longopt : List Char
  checkArg : Option (List Char) → ArgStatus

/-- An option as it is stored. -/
structure ParsedOption (ι : Type) where
  index : ι
  arg : Option (List Char)
  deriving DecidableEq, Repr

/-- The first text is the second one up to its end or to a `=`. -/
def streq : List Char → List Char → Bool
  | [], [] => true
  | [], d :: _ => d == '='
  | _ :: _, [] => false
  | c :: st1, d :: st2 => c == d && streq st1 st2

def instr (c : Char) (st : List Char) : Bool := st.contains c

/-- The argument that an option could have: attached to it, or the next word. -/
inductive OptArg where
  | missing
  | attached (arg : List Char)
  | detached (arg : List Char)

namespace OptArg

def value : OptArg → Option (List Char)
  | missing => none
  | attached arg | detached arg => some arg

def isDetached : OptArg → Bool
  | detached _ => true
  | missing | attached _ => false

def ofNext : Option (List Char) → OptArg
  | none => missing
  | some arg => detached arg

/-- What stands behind the `=` of a long option, or else the next word. -/
def ofLong (next : Option (List Char)) : List Char → OptArg
  | [] => ofNext next
  | c :: name => if c = '=' then attached name else ofLong next name

/-- What is left of a group of short options, or else the next word. -/
def ofShort (next : Option (List Char)) : List Char → OptArg
  | [] => ofNext next
  | c :: rest => attached (c :: rest)

end OptArg

section Workhorse

variable {ι σ : Type} (usage : List (Descriptor ι)) (perform : σ → ParsedOption ι → Option σ)

/-- The entry that matches, or else the one for unknown options. -/
def descriptorOf (fits : Descriptor ι → Bool) : Option (Descriptor ι) :=
  (usage.find? fits).or (usage.find? fun d => d.shortopt.isEmpty && d.longopt.isEmpty)

/-- How an option ends: the parse ends with it, a group can go on, or an argument ends the
group. -/
inductive Handled (σ : Type) where
  | fatal (s : σ)
  | next (s : σ)
  | taken (s : σ) (detached : Bool)

def handleOption (s : σ) (optarg : OptArg) : Option (Descriptor ι) → Handled σ
  | none => .next s
  | some d =>
    match d.checkArg optarg.value with
    | .illegal => .fatal s
    | .ok =>
      match perform s ⟨d.index, optarg.value⟩ with
      | none => .fatal s
      | some s' => .taken s' optarg.isDetached
    | .ignore | .none =>
      match perform s ⟨d.index, none⟩ with
      | none => .fatal s
      | some s' => .next s'

def handleGroup (next : Option (List Char)) : List Char → σ → Handled σ
  | [], s => .next s
  | c :: rest, s =>
    match handleOption perform s (.ofShort next rest) (descriptorOf usage fun d => instr c d.shortopt) with
    | .next s' => handleGroup next rest s'
    | .fatal s' => .fatal s'
    | .taken s' detached => .taken s' detached

/-- A word that is not an option: it does not begin with a minus, or is nothing else. -/
def isNonOption : List Char → Bool
  | '-' :: _ :: _ => false
  | _ => true

def handleParam (next : Option (List Char)) (s : σ) : List Char → Handled σ
  | '-' :: '-' :: name =>
    handleOption perform s (.ofLong next name) (descriptorOf usage fun d => streq d.longopt name)
  | '-' :: group => handleGroup usage perform next group s
  | _ => .next s

/-- The words behind the options, if no error ended the parse. -/
def workhorse : List (List Char) → σ → σ × Option (List (List Char))
  | [], s => (s, some [])
  | param :: args, s =>
    if isNonOption param then (s, some (param :: args))
    else if param = ['-', '-'] then (s, some args)
    else
      match handleParam usage perform args.head? s param with
      | .fatal s' => (s', none)
      | .next s' | .taken s' false => workhorse args s'
      | .taken s' true =>
        match args with
        | [] => (s', some [])
        | _ :: args' => workhorse args' s'

end Workhorse

/-! ### The two passes -/

section Passes

variable {ι : Type}

def maxInt : Nat := 0x7fffffff

structure Stats where
  bufferMax : Nat
  optionsMax : Nat

def CountOptionsAction.perform (bufferMax : Nat) (_ : ParsedOption ι) : Option Nat :=
  if bufferMax = maxInt then none else some (bufferMax + 1)

/-- `number` is the index as a position in the array of options. -/
def Stats.create (number : ι → Nat) (usage : List (Descriptor ι)) (args : List (List Char)) : Stats where
  bufferMax := (workhorse usage CountOptionsAction.perform args 1).1
  optionsMax := usage.foldl (fun m d => if m ≤ number d.index + 1 then number d.index + 1 + 1 else m) 1

/-- The buffer is taken to be large enough. -/
def StoreOptionAction.perform (buffer : List (ParsedOption ι)) (option : ParsedOption ι) :
    Option (List (ParsedOption ι)) :=
  if buffer.length = maxInt then none else some (buffer ++ [option])

structure Parser (ι : Type) where
  buffer : List (ParsedOption ι)
  error : Bool
  nonOptions : List (List Char)

def Parser.parse (usage : List (Descriptor ι)) (args : List (List Char)) : Parser ι :=
  match workhorse usage StoreOptionAction.perform args [] with
  | (buffer, none) => { buffer := buffer, error := true, nonOptions := [] }
  | (buffer, some rest) => { buffer := buffer, error := false, nonOptions := rest }

end Passes

/-! ### What a pass reads -/

section Scan

variable {ι σ : Type} (usage : List (Descriptor ι))

inductive End where
  | fatal
  | next
  | taken (detached : Bool)

def readOption (optarg : OptArg) : Option (Descriptor ι) → List (ParsedOption ι) × End
  | none => ([], .next)
  | some d =>
    match d.checkArg optarg.value with
    | .illegal => ([], .fatal)
    | .ok => ([⟨d.index, optarg.value⟩], .taken optarg.isDetached)
    | .ignore | .none => ([⟨d.index, none⟩], .next)

def readGroup (next : Option (List Char)) : List Char → List (ParsedOption ι) × End
  | [] => ([], .next)
  | c :: rest =>
    match readOption (.ofShort next rest) (descriptorOf usage fun d => instr c d.shortopt) with
    | (os, .next) => (os ++ (readGroup next rest).1, (readGroup next rest).2)
    | (os, .fatal) => (os, .fatal)
    | (os, .taken detached) => (os, .taken detached)

def readParam (next : Option (List Char)) : List Char → List (ParsedOption ι) × End
  | '-' :: '-' :: name => readOption (.ofLong next name) (descriptorOf usage fun d => streq d.longopt name)
  | '-' :: group => readGroup usage next group
  | _ => ([], .next)

/-- The options of a command line, and the words behind them if none is illegal. -/
def scan : List (List Char) → List (ParsedOption ι) × Option (List (List Char))
  | [] => ([], some [])
  | param :: args =>
    if isNonOption param then ([], some (param :: args))
    else if param = ['-', '-'] then ([], some args)
    else
      match readParam usage args.head? param with
      | (os, .fatal) => (os, none)
      | (os, .next) | (os, .taken false) => (os ++ (scan args).1, (scan args).2)
      | (os, .taken true) =>
        match args with
        | [] => (os, some [])
        | _ :: args' => (os ++ (scan args').1, (scan args').2)

/-- What is read of a command line after its first parameter. -/
def scanAfter (args : List (List Char)) :
    List (ParsedOption ι) × End → List (ParsedOption ι) × Option (List (List Char))
  | (os, .fatal) => (os, none)
  | (os, .next) | (os, .taken false) => (os ++ (scan usage args).1, (scan usage args).2)
  | (os, .taken true) => (os ++ (scan usage args.tail).1, (scan usage args.tail).2)

/-- A parameter that holds options. -/
def IsOption (param : List Char) : Prop := isNonOption param = false ∧ param ≠ ['-', '-']

theorem isOption_cases {param : List Char} (h : IsOption param) :
    (∃ name, name ≠ [] ∧ param = '-' :: '-' :: name) ∨ ∃ l, l ≠ [] ∧ l.head? ≠ some '-' ∧ param = '-' :: l := by
  obtain ⟨hno, hne⟩ := h
  unfold isNonOption at hno
  split at hno
  · rename_i c l
    by_cases hc : c = '-'
    · subst hc
      exact .inl ⟨l, fun hl => hne (by rw [hl]), rfl⟩
    · exact .inr ⟨c :: l, by simp, by simpa using hc, rfl⟩
  · cases hno

variable {usage} in
theorem scan_option {param : List Char} {args : List (List Char)} (h : IsOption param) :
    scan usage (param :: args) = scanAfter usage args (readParam usage args.head? param) := by
  rw [scan, if_neg (by simp [h.1]), if_neg h.2]
  generalize readParam usage args.head? param = r
  obtain ⟨os, e⟩ := r
  cases e with
  | fatal => rfl
  | next => rfl
  | taken detached =>
    cases detached with
    | false => rfl
    | true =>
      cases args with
      | nil => simp [scanAfter, scan]
      | cons arg args => rfl

/-- Something is done for options one after another, as far as it does not fail. -/
def performAll (perform : σ → ParsedOption ι → Option σ) : σ → List (ParsedOption ι) → σ × Bool
  | s, [] => (s, true)
  | s, o :: os =>
    match perform s o with
    | none => (s, false)
    | some s' => performAll perform s' os

theorem performAll_append (perform : σ → ParsedOption ι → Option σ) (os os' : List (ParsedOption ι)) (s : σ) :
    performAll perform s (os ++ os') =
      if (performAll perform s os).2 then performAll perform (performAll perform s os).1 os'
      else performAll perform s os := by
  induction os generalizing s with
  | nil => rfl
  | cons o os ih =>
    rw [List.cons_append, performAll, performAll]
    cases perform s o with
    | none => rfl
    | some s' => exact ih s'

/-- What doing something for what was read gives. -/
def outcome (perform : σ → ParsedOption ι → Option σ) (s : σ) (r : List (ParsedOption ι) × End) : Handled σ :=
  match performAll perform s r.1 with
  | (s', false) => .fatal s'
  | (s', true) =>
    match r.2 with
    | .fatal => .fatal s'
    | .next => .next s'
    | .taken detached => .taken s' detached

variable {usage} (perform : σ → ParsedOption ι → Option σ)

theorem handleOption_eq (s : σ) (optarg : OptArg) (d : Option (Descriptor ι)) :
    handleOption perform s optarg d = outcome perform s (readOption optarg d) := by
  cases d with
  | none => rfl
  | some d =>
    rw [handleOption, readOption]
    cases d.checkArg optarg.value with
    | illegal => rfl
    | ok => cases h : perform s ⟨d.index, optarg.value⟩ <;> simp [outcome, performAll, h]
    | ignore => cases h : perform s ⟨d.index, none⟩ <;> simp [outcome, performAll, h]
    | none => cases h : perform s ⟨d.index, none⟩ <;> simp [outcome, performAll, h]

theorem handleGroup_eq (next : Option (List Char)) (group : List Char) (s : σ) :
    handleGroup usage perform next group s = outcome perform s (readGroup usage next group) := by
  induction group generalizing s with
  | nil => rfl
  | cons c rest ih =>
    rw [handleGroup, readGroup, handleOption_eq]
    generalize readOption (.ofShort next rest) (descriptorOf usage fun d => instr c d.shortopt) = r
    obtain ⟨os, e⟩ := r
    cases h : performAll perform s os with
    | mk s' all =>
      cases all with
      | false => cases e <;> simp [outcome, h, performAll_append]
      | true =>
        cases e with
        | fatal => simp [outcome, h]
        | taken detached => simp [outcome, h]
        | next => simp [outcome, h, performAll_append, ih]

theorem handleParam_eq (next : Option (List Char)) (s : σ) (param : List Char) :
    handleParam usage perform next s param = outcome perform s (readParam usage next param) := by
  unfold handleParam readParam
  split
  · exact handleOption_eq perform s _ _
  · exact handleGroup_eq perform next _ s
  · rfl

/-- A pass does its part for the options it reads, until that fails. -/
theorem workhorse_eq (args : List (List Char)) (s : σ) :
    workhorse usage perform args s =
      ((performAll perform s (scan usage args).1).1,
        if (performAll perform s (scan usage args).1).2 then (scan usage args).2 else none) := by
  fun_induction scan usage args generalizing s with
  | case1 => rfl
  | case2 param args h => simp [workhorse, h, performAll]
  | case3 args h => simp [workhorse, h, performAll]
  | case4 param args hn hm os hr =>
    rw [workhorse, if_neg hn, if_neg hm, handleParam_eq, hr]
    cases h : performAll perform s os with
    | mk s' all => cases all <;> simp [outcome, h]
  | case5 param args hn hm os hr ih =>
    rw [workhorse, if_neg hn, if_neg hm, handleParam_eq, hr]
    cases h : performAll perform s os with
    | mk s' all => cases all <;> simp [outcome, h, performAll_append, ih]
  | case6 param args hn hm os hr ih =>
    rw [workhorse, if_neg hn, if_neg hm, handleParam_eq, hr]
    cases h : performAll perform s os with
    | mk s' all => cases all <;> simp [outcome, h, performAll_append, ih]
  | case7 param hn hm os hr =>
    rw [workhorse, if_neg hn, if_neg hm, handleParam_eq, hr]
    cases h : performAll perform s os with
    | mk s' all => cases all <;> simp [outcome, h]
  | case8 param hn hm os arg args hr ih =>
    rw [workhorse, if_neg hn, if_neg hm, handleParam_eq, hr]
    cases h : performAll perform s os with
    | mk s' all => cases all <;> simp [outcome, h, performAll_append, ih]

end Scan

/-! ### The room that the first pass makes -/

section Room

variable {ι : Type}

theorem performAll_count (os : List (ParsedOption ι)) {n : Nat} (hn : n ≤ maxInt) :
    (performAll CountOptionsAction.perform n os).1 = min (n + os.length) maxInt := by
  induction os generalizing n with
  | nil => exact (Nat.min_eq_left hn).symm
  | cons o os ih =>
    rw [performAll, CountOptionsAction.perform]
    by_cases h : n = maxInt
    · rw [if_pos h]
      simp only [List.length_cons]
      omega
    · rw [if_neg h]
      have hstep := ih (n := n + 1) (by omega)
      rw [hstep, List.length_cons]
      omega

theorem performAll_store (os buffer : List (ParsedOption ι)) (hb : buffer.length ≤ maxInt) :
    performAll StoreOptionAction.perform buffer os =
      (buffer ++ os.take (maxInt - buffer.length), decide (buffer.length + os.length ≤ maxInt)) := by
  induction os generalizing buffer with
  | nil => simpa [performAll] using hb
  | cons o os ih =>
    rw [performAll, StoreOptionAction.perform]
    by_cases h : buffer.length = maxInt
    · rw [if_pos h, h, Nat.sub_self, List.take_zero, List.append_nil, List.length_cons]
      simp
    · rw [if_neg h]
      have hlt : buffer.length < maxInt := by omega
      obtain ⟨k, hk⟩ : ∃ k, maxInt - buffer.length = k + 1 := ⟨maxInt - buffer.length - 1, by omega⟩
      have hlen : (buffer ++ [o]).length = buffer.length + 1 := by simp
      have hstep := ih (buffer ++ [o]) (by rw [hlen]; omega)
      rw [hlen, show maxInt - (buffer.length + 1) = k by omega] at hstep
      simp only [hstep, hk, List.take_succ_cons, List.append_assoc, List.singleton_append, List.length_cons]
      rw [show buffer.length + 1 + os.length = buffer.length + (os.length + 1) by omega]

/-- The second entry judges arguments as the first one does, or finds them illegal. -/
structure Stricter (d d' : Descriptor ι) : Prop where
  index : d'.index = d.index
  shortopt : d'.shortopt = d.shortopt
  longopt : d'.longopt = d.longopt
  checkArg : ∀ arg, d'.checkArg arg = d.checkArg arg ∨ d'.checkArg arg = .illegal

/-- The second reading is the first one, or ended earlier with an error. -/
def EndsEarlier (r r' : List (ParsedOption ι) × End) : Prop := r' = r ∨ r'.2 = .fatal ∧ r'.1 <+: r.1

variable {usage usage' : List (Descriptor ι)}

theorem find?_stricter (h : List.Forall₂ Stricter usage usage') {fits : Descriptor ι → Bool}
    (hfits : ∀ d d', Stricter d d' → fits d' = fits d) :
    Option.Rel Stricter (usage.find? fits) (usage'.find? fits) := by
  induction h with
  | nil => exact .none
  | @cons d d' l l' hd _ ih =>
    rw [List.find?_cons, List.find?_cons, hfits d d' hd]
    cases fits d with
    | true => exact .some hd
    | false => exact ih

theorem descriptorOf_stricter (h : List.Forall₂ Stricter usage usage') {fits : Descriptor ι → Bool}
    (hfits : ∀ d d', Stricter d d' → fits d' = fits d) :
    Option.Rel Stricter (descriptorOf usage fits) (descriptorOf usage' fits) := by
  have hunknown : Option.Rel Stricter (usage.find? fun d => d.shortopt.isEmpty && d.longopt.isEmpty)
      (usage'.find? fun d => d.shortopt.isEmpty && d.longopt.isEmpty) :=
    find?_stricter h fun d d' hd => by rw [hd.shortopt, hd.longopt]
  have hfound := find?_stricter h hfits
  unfold descriptorOf
  revert hfound
  generalize usage.find? fits = d
  generalize usage'.find? fits = d'
  intro hfound
  cases hfound with
  | some hd => exact .some hd
  | none => exact hunknown

theorem readOption_earlier (optarg : OptArg) {d d' : Option (Descriptor ι)} (h : Option.Rel Stricter d d') :
    EndsEarlier (readOption optarg d) (readOption optarg d') := by
  cases h with
  | none => exact .inl rfl
  | @some d d' hd =>
    rcases hd.checkArg optarg.value with hc | hc
    · left
      rw [readOption, readOption, hc, hd.index]
    · right
      rw [readOption, hc]
      exact ⟨rfl, List.nil_prefix⟩

theorem readGroup_earlier (h : List.Forall₂ Stricter usage usage') (next : Option (List Char)) (group : List Char) :
    EndsEarlier (readGroup usage next group) (readGroup usage' next group) := by
  induction group with
  | nil => exact .inl rfl
  | cons c rest ih =>
    have hd : Option.Rel Stricter (descriptorOf usage fun d => instr c d.shortopt)
        (descriptorOf usage' fun d => instr c d.shortopt) :=
      descriptorOf_stricter h fun d d' hd => by rw [hd.shortopt]
    have hfirst := readOption_earlier (.ofShort next rest) hd
    rw [readGroup, readGroup]
    rcases hfirst with hfirst | ⟨hend, hpre⟩
    · rw [hfirst]
      generalize readOption (.ofShort next rest) (descriptorOf usage fun d => instr c d.shortopt) = r
      obtain ⟨os, e⟩ := r
      cases e with
      | fatal => exact .inl rfl
      | taken detached => exact .inl rfl
      | next =>
        rcases ih with ih | ⟨hend, hpre⟩
        · exact .inl (by rw [ih])
        · exact .inr ⟨hend, (List.prefix_append_right_inj os).mpr hpre⟩
    · right
      revert hend hpre
      generalize readOption (.ofShort next rest) (descriptorOf usage' fun d => instr c d.shortopt) = r'
      generalize readOption (.ofShort next rest) (descriptorOf usage fun d => instr c d.shortopt) = r
      obtain ⟨os', e'⟩ := r'
      obtain ⟨os, e⟩ := r
      rintro rfl hpre
      refine ⟨rfl, ?_⟩
      cases e with
      | fatal => exact hpre
      | taken detached => exact hpre
      | next => exact hpre.trans (List.prefix_append os _)

theorem readParam_earlier (h : List.Forall₂ Stricter usage usage') (next : Option (List Char)) (param : List Char) :
    EndsEarlier (readParam usage next param) (readParam usage' next param) := by
  unfold readParam
  split
  · exact readOption_earlier _ <| descriptorOf_stricter h fun d d' hd => by rw [hd.longopt]
  · exact readGroup_earlier h next _
  · exact .inl rfl

theorem prefix_scanAfter (args : List (List Char)) (r : List (ParsedOption ι) × End) :
    r.1 <+: (scanAfter usage args r).1 := by
  obtain ⟨os, e⟩ := r
  cases e with
  | fatal => exact List.prefix_rfl
  | next => exact List.prefix_append os _
  | taken detached => cases detached <;> exact List.prefix_append os _

/-- Stricter checks read the same options, or fewer of them and an error. -/
theorem scan_earlier (h : List.Forall₂ Stricter usage usage') (args : List (List Char)) :
    scan usage' args = scan usage args ∨
      (scan usage' args).2 = none ∧ (scan usage' args).1 <+: (scan usage args).1 := by
  match args with
  | [] => exact .inl rfl
  | param :: args =>
    by_cases hn : isNonOption param = true
    · exact .inl (by rw [scan, scan, if_pos hn, if_pos hn])
    by_cases hm : param = ['-', '-']
    · exact .inl (by rw [scan, scan, if_neg hn, if_pos hm, if_neg hn, if_pos hm])
    have hoption : IsOption param := ⟨by simpa using hn, hm⟩
    have hlater : ∀ (os : List (ParsedOption ι)) (args' : List (List Char)), args'.length < (param :: args).length →
        (os ++ (scan usage' args').1, (scan usage' args').2) = (os ++ (scan usage args').1, (scan usage args').2) ∨
          (scan usage' args').2 = none ∧ os ++ (scan usage' args').1 <+: os ++ (scan usage args').1 := by
      intro os args' hlt
      rcases scan_earlier h args' with heq | ⟨hend, hpre⟩
      · exact .inl (by rw [heq])
      · exact .inr ⟨hend, (List.prefix_append_right_inj os).mpr hpre⟩
    rw [scan_option hoption, scan_option hoption]
    rcases readParam_earlier h args.head? param with heq | ⟨hend, hpre⟩
    · rw [heq]
      generalize readParam usage args.head? param = r
      obtain ⟨os, e⟩ := r
      cases e with
      | fatal => exact .inl rfl
      | next => exact hlater os args (by simp)
      | taken detached =>
        cases detached with
        | false => exact hlater os args (by simp)
        | true => exact hlater os args.tail (by simp only [List.length_tail, List.length_cons]; omega)
    · right
      have hall : (readParam usage' args.head? param).1 <+:
          (scanAfter usage args (readParam usage args.head? param)).1 :=
        hpre.trans (prefix_scanAfter args (readParam usage args.head? param))
      revert hend hall
      generalize readParam usage' args.head? param = r'
      obtain ⟨os', e'⟩ := r'
      rintro rfl hall
      exact ⟨rfl, hall⟩
termination_by args.length
decreasing_by exact hlt

/-- Every option of the second pass has its place, with stricter checks as well. -/
theorem length_buffer_le (number : ι → Nat) (h : List.Forall₂ Stricter usage usage') (args : List (List Char)) :
    (Parser.parse usage' args).buffer.length ≤ (Stats.create number usage args).bufferMax := by
  have hpre : (scan usage' args).1 <+: (scan usage args).1 := by
    rcases scan_earlier h args with heq | ⟨-, hpre⟩
    · exact heq ▸ List.prefix_rfl
    · exact hpre
  have hlen := hpre.length_le
  have hbuffer : (Parser.parse usage' args).buffer = (workhorse usage' StoreOptionAction.perform args []).1 := by
    unfold Parser.parse
    split <;> rename_i hw <;> rw [hw]
  rw [hbuffer, Stats.create, workhorse_eq, workhorse_eq, performAll_store _ _ (by simp),
    performAll_count _ (by decide)]
  simp only [List.nil_append, List.length_take, List.length_nil, Nat.sub_zero]
  omega

theorem index_lt_optionsMax (number : ι → Nat) (args : List (List Char)) {d : Descriptor ι} (hd : d ∈ usage) :
    number d.index + 1 < (Stats.create number usage args).optionsMax := by
  have hfold : ∀ (l : List (Descriptor ι)) (m : Nat),
      m ≤ l.foldl (fun m d => if m ≤ number d.index + 1 then number d.index + 1 + 1 else m) m ∧
        ∀ d ∈ l, number d.index + 1 <
          l.foldl (fun m d => if m ≤ number d.index + 1 then number d.index + 1 + 1 else m) m := by
    intro l
    induction l with
    | nil => intro m; exact ⟨Nat.le_refl m, by simp⟩
    | cons e l ih =>
      intro m
      obtain ⟨hle, hall⟩ := ih (if m ≤ number e.index + 1 then number e.index + 1 + 1 else m)
      rw [List.foldl_cons]
      refine ⟨Nat.le_trans (by split <;> omega) hle, fun d hd => ?_⟩
      rcases List.mem_cons.mp hd with rfl | hd
      · exact Nat.lt_of_lt_of_le (by split <;> omega) hle
      · exact hall d hd
  exact (hfold usage 1).2 d hd

end Room

/-! ### What the second pass leaves -/

section Parse

variable {ι : Type} {usage : List (Descriptor ι)} {args : List (List Char)} {os : List (ParsedOption ι)}
  {rest : List (List Char)}

/-- What was read is stored, and what stands behind it is left over. -/
theorem parse_eq (h : scan usage args = (os, some rest)) (hlen : os.length ≤ maxInt) :
    Parser.parse usage args = { buffer := os, error := false, nonOptions := rest } := by
  have hwork : workhorse usage StoreOptionAction.perform args [] = (os, some rest) := by
    rw [workhorse_eq, h, performAll_store _ _ (by simp)]
    simp [hlen, List.take_of_length_le]
  rw [Parser.parse, hwork]

/-- An illegal argument or too many options end the parse with an error. -/
theorem parse_error (h : (scan usage args).2 = none ∨ maxInt < (scan usage args).1.length) :
    (Parser.parse usage args).error = true := by
  have hwork : (workhorse usage StoreOptionAction.perform args []).2 = none := by
    rw [workhorse_eq, performAll_store _ _ (by simp)]
    rcases h with h | h
    · simp [h]
    · simp only [List.length_nil, Nat.zero_add]
      rw [if_neg (by simpa using h)]
  unfold Parser.parse
  split
  · rfl
  · rename_i hw
    rw [hw] at hwork
    cases hwork

end Parse

end DDSRouter.OptionParser
