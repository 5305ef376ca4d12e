import DDSRouter.FirstTopics
import DDSRouter.RouterParticipants
import DDSRouter.RouterServices

/-!
# The process of the tool

`main` loads the configuration file, constructs the router, starts it and waits until it
is told to close. Meanwhile the file may change, and a file watcher and a timer read it
again and reload the router. A callback reads the file first and calls the router
later, so that several of them may be on their way with documents of different age.
-/
namespace DDSRouter

namespace Router

open WeakOrder

variable {env : Env} {s s' : State}

theorem contains_step {a : Action} (h : TopicsActive env s) (hs : step env s a = some s') (t : DdsTopic)
    (ht : s.currentTopics.contains t = true ∨ ∃ b ∈ introduced s a, same t b = true) :
    s'.currentTopics.contains t = true := by
  rw [← OrdMap.isSome_keyOf, ← State.knownAs, knownAs_step h hs, Option.isSome_or]
  rcases ht with ht | ⟨b, hb, hs⟩
  · rw [State.knownAs, OrdMap.isSome_keyOf, ht, Bool.true_or]
  · rw [List.find?_isSome.mpr ⟨b, hb, hs⟩, Bool.or_true]

end Router

namespace Tool

open DDSRouter.Configuration YamlReader Documents Runs WeakOrder

inductive ProcessReturnCode where
  | success | helpArgument | versionArgument | incorrectArgument | requiredArgumentFailed | executionFailed
  deriving DecidableEq, Repr

/-! ### Loading -/

/-- The file cannot be loaded as a document, or the document cannot be read. -/
inductive LoadException where
  | file
  | document (cause : ConfigurationException)
  deriving DecidableEq, Repr

def getYamlReaderVersion : Yaml → Reading YamlReaderVersion :=
  getEnumeration [("v1.0", .v1_0), ("v2.0", .v2_0), ("v3.0", .v3_0)]

def defaultYamlVersion : YamlReaderVersion := .v1_0

def loadDdsrouterConfiguration (libraries : Libraries) (d : UInt32) (yml : Yaml) : Reading DDSRouterConfiguration := do
  let version ← ifPresent yml "version" (getIn yml "version" getYamlReaderVersion)
  getDDSRouterConfiguration libraries d (version.getD defaultYamlVersion) yml

/-- `none` is a file that `YamlManager::load_file` cannot load. -/
def loadDdsrouterConfigurationFromFile (libraries : Libraries) (d : UInt32) :
    Option Yaml → Except LoadException DDSRouterConfiguration
  | none => .error .file
  | some yml => (loadDdsrouterConfiguration libraries d yml).mapError .document

/-! ### The process -/

/-- The options of the tool and what it uses of libraries. What is read comes with its
pointers in an order that may be another one every time. -/
structure Env where
  libraries : Libraries
  matchPattern : String → String → Bool
  pointerStr : DdsTopic → String
  init : AnyParticipantConfiguration → Option String
  order : Nat → DDSRouterConfiguration → Pointers
  order_arranges : ∀ n c, (order n c).Arranges c
  reloadTime : Nat

inductive MainPc where
  | load
  | construct (p : Pointers)
  | watch | periodic | start | wait | resetPeriodic | resetWatcher | stop
  | exited (code : ProcessReturnCode)

/-- `loaded` are the configurations of callbacks that have read the file and not yet
called the router. So far the file was read `readings` times. -/
structure State where
  pc : MainPc := .load
  file : Option Yaml
  depth : UInt32 := initialHistoryDepth
  router : Option (Router.Env × Router.State) := none
  watcher : Bool := false
  timer : Bool := false
  loaded : List Pointers := []
  readings : Nat := 0
  closed : Bool := false

/-- Steps of `main`, and what happens around it. Registering the file watcher may fail,
and the constructor of the router is given some rounds for each of its searches. -/
inductive Action where
  | main (registers : Bool) (rounds : Nat)
  | write (file : Option Yaml)
  | watcherFires
  | timerFires
  | reload (i : Nat)
  | discovered (e : Endpoint)
  | removed (e : Endpoint)
  | close

variable (env : Env)

def Env.load (s : State) : Except LoadException Pointers :=
  (loadDdsrouterConfigurationFromFile env.libraries s.depth s.file).map (env.order s.readings)

def Env.valid (p : Pointers) : Bool := p.isValid env.libraries.dds env.pointerStr

/-- The constructor of the router, as far as its participants. -/
def Env.construct (rounds : Nat) (p : Pointers) : Outcome CreationException Participants :=
  DDSRouterImpl.construct env.libraries.dds env.pointerStr env.init rounds p

def Env.routerOf (db : Participants) : Router.Env :=
  { utils := ⟨env.libraries.fuzzy, env.matchPattern⟩, rtpsParticipantsIds := db.getRtpsParticipantsIds }

/-- An operation of the router, if there is one. -/
def State.operate (s : State) (f : Router.Env → Router.State → Router.State) : State :=
  { s with router := s.router.map fun r => (r.1, f r.1 r.2) }

/-- `reload_configuration` as the callbacks call it: the check is that of the class of the
argument, and exceptions are caught and logged. -/
def reloadRouter (p : Pointers) (renv : Router.Env) (r : Router.State) : Router.State :=
  if env.valid p then ((Router.reloadConfiguration renv r p.toReloadConfiguration).map Prod.snd).getD r else r

/-- A step of `main`; the constructor of the router is no step while it has not returned. -/
def mainStep (s : State) (registers : Bool) (rounds : Nat) : MainPc → Option State
  | .load =>
    match env.load s with
    | .ok p => some { s with pc := .construct p, readings := s.readings + 1 }
    | .error _ => some { s with pc := .exited .executionFailed }
  | .construct p =>
    match env.construct rounds p with
    | .returns db =>
      some { s with
        pc := .watch, depth := p.advancedOptions.maxHistoryDepth
        router := some (env.routerOf db, Router.create (env.routerOf db) p.toReloadConfiguration) }
    | .throws _ => some { s with pc := .exited .executionFailed }
    | .running => none
  | .watch =>
    if registers then some { s with pc := .periodic, watcher := true }
    else some { s with pc := .exited .executionFailed }
  | .periodic => some { s with pc := .start, timer := decide (0 < env.reloadTime) }
  | .start => some { s.operate fun renv r => (Router.start renv r).2 with pc := .wait }
  | .wait => if s.closed then some { s with pc := .resetPeriodic } else none
  | .resetPeriodic => some { s with pc := .resetWatcher, timer := false }
  | .resetWatcher => some { s with pc := .stop, watcher := false }
  | .stop => some { s.operate fun _ r => (Router.stop r).2 with pc := .exited .success }
  | .exited _ => none

/-- A callback reads the file; what it cannot read it logs. -/
def fire (s : State) : State :=
  match env.load s with
  | .ok p => { s with loaded := s.loaded ++ [p], readings := s.readings + 1 }
  | .error _ => s

def MainPc.isExited : MainPc → Bool
  | .exited _ => true
  | _ => false

def step (s : State) : Action → Option State
  | .main registers rounds => mainStep env s registers rounds s.pc
  | .write file => some { s with file := file }
  | .watcherFires => if s.watcher then some (fire env s) else none
  | .timerFires => if s.timer then some (fire env s) else none
  | .reload i =>
    if s.pc.isExited then none
    else (s.loaded[i]?).map fun p => { s.operate (reloadRouter env p) with loaded := s.loaded.eraseIdx i }
  | .discovered e =>
    if s.pc.isExited then none else some (s.operate fun renv r => Router.discoveredEndpoint renv r e)
  | .removed e => if s.pc.isExited then none else some (s.operate fun _ r => Router.removedEndpoint r e)
  | .close => some { s with closed := true }

/-- The router is between its start and its stop. -/
def MainPc.started : MainPc → Bool
  | .wait | .resetPeriodic | .resetWatcher | .stop => true
  | .load | .construct _ | .watch | .periodic | .start | .exited _ => false

/-- The lists that a router makes of the configuration. -/
def listsOf (p : Pointers) : AllowedTopicList :=
  AllowedTopicList.create p.toReloadConfiguration.allowlist p.toReloadConfiguration.blocklist

/-- The reload of the configuration answers `RETCODE_OK`. -/
def accepts (p : Pointers) (renv : Router.Env) (r : Router.State) : Bool :=
  env.valid p && ((Router.reloadConfiguration renv r p.toReloadConfiguration).map Prod.fst == some .ok)

/-- The configurations that take effect: the one that the router is constructed from, and
those whose reload is accepted. -/
def applied (s : State) : Action → List Pointers
  | .main _ rounds =>
    match s.pc with
    | .construct p =>
      match env.construct rounds p with
      | .returns _ => [p]
      | .throws _ | .running => []
    | _ => []
  | .reload i => (s.loaded[i]?).toList.filter fun p => s.router.any fun r => accepts env p r.1 r.2
  | .write _ | .watcherFires | .timerFires | .discovered _ | .removed _ | .close => []

/-- There is no router yet. -/
def MainPc.early : MainPc → Bool
  | .load | .construct _ => true
  | _ => false

/-- A configuration was read from what the file held at some point of a run. -/
def ReadIn (s₀ : State) (past : List Action) (p : Pointers) : Prop :=
  ∃ before after t c, past = before ++ after ∧ run (step env) s₀ before = some t ∧
    loadDdsrouterConfigurationFromFile env.libraries t.depth t.file = .ok c ∧ p.Arranges c

/-- What is on its way to the router was read from the file. -/
structure AllRead (s₀ : State) (past : List Action) (s : State) : Prop where
  reached : run (step env) s₀ past = some s
  loaded : ∀ p ∈ s.loaded, ReadIn env s₀ past p
  constructing : ∀ p, s.pc = .construct p → ReadIn env s₀ past p

/-- The router after the configurations `p₀ :: rest` took effect. -/
structure Serving (p₀ : Pointers) (rest : List Pointers) (s : State) (renv : Router.Env) (r : Router.State) :
    Prop where
  router : s.router = some (renv, r)
  late : s.pc.early = false
  utils : renv.utils = ⟨env.libraries.fuzzy, env.matchPattern⟩
  reached : ∃ ras, run (Router.step renv) (Router.create renv p₀.toReloadConfiguration) ras = some r
  enabled : r.enabled = s.pc.started
  depth : s.depth = p₀.advancedOptions.maxHistoryDepth
  lists : ∀ p ∈ (p₀ :: rest).getLast?, r.allowedTopics = listsOf p
  known : ∀ p ∈ p₀ :: rest, ∀ t ∈ p.toReloadConfiguration.builtinTopics, r.currentTopics.contains t = true
  valid : ∀ p ∈ p₀ :: rest, env.valid p = true

/-- A process and the configurations that took effect in it. -/
def Consistent (L : List Pointers) (s : State) : Prop :=
  (L = [] ∧ s.router = none ∧ (s.pc.early = true ∨ s.pc.isExited = true)) ∨
    ∃ p₀ rest renv r, L = p₀ :: rest ∧ Serving env p₀ rest s renv r

variable {env : Env} {s s' : State} {p₀ : Pointers} {rest : List Pointers} {renv : Router.Env} {r : Router.State}

theorem Serving.topicsActive (h : Serving env p₀ rest s renv r) : Router.TopicsActive renv r := by
  obtain ⟨ras, hr⟩ := h.reached
  exact run_invariant (fun _ _ _ hI hs => Router.topicsActive_step hI hs) (Router.topicsActive_create renv _) hr

/-- An operation of the router other than a reload. -/
theorem serving_operate (h : Serving env p₀ rest s renv r) {a : Router.Action} {r' : Router.State}
    (ha : ∀ c, a ≠ .reload c) (hr' : Router.step renv r a = some r') (hs' : s'.router = some (renv, r'))
    (hlate : s'.pc.early = false) (hstarted : s'.pc.started = a.flag s.pc.started) (hdepth : s'.depth = s.depth) :
    Serving env p₀ rest s' renv r' := by
  obtain ⟨ras, hras⟩ := h.reached
  obtain ⟨he, hl⟩ := Router.step_lists hr' ha
  exact
    { router := hs', late := hlate, utils := h.utils
      reached := ⟨ras ++ [a], by rw [run_concat hras, hr']⟩
      enabled := by rw [he, h.enabled, hstarted]
      depth := hdepth.trans h.depth
      lists := hl ▸ h.lists
      known := fun c hc t ht => Router.contains_step h.topicsActive hr' t (.inl (h.known c hc t ht))
      valid := h.valid }

/-- A step that has nothing to do with the router. -/
theorem serving_keep (h : Serving env p₀ rest s renv r) (hs' : s'.router = s.router) (hlate : s'.pc.early = false)
    (hstarted : s'.pc.started = s.pc.started) (hdepth : s'.depth = s.depth) : Serving env p₀ rest s' renv r :=
  { h with
    router := hs'.trans h.router, late := hlate, enabled := h.enabled.trans hstarted.symm
    depth := hdepth.trans h.depth }

/-- A callback reloads the router. Whatever the answer is, a router whose reload is not
accepted stays as it was. -/
theorem serving_reload (h : Serving env p₀ rest s renv r) (p : Pointers)
    (hs' : s'.router = some (renv, reloadRouter env p renv r)) (hpc : s'.pc = s.pc) (hdepth : s'.depth = s.depth) :
    Serving env p₀ (rest ++ if accepts env p renv r then [p] else []) s' renv (reloadRouter env p renv r) := by
  have hkeep : reloadRouter env p renv r = r → accepts env p renv r = false →
      Serving env p₀ (rest ++ if accepts env p renv r then [p] else []) s' renv (reloadRouter env p renv r) := by
    intro heq hnot
    rw [hnot, heq]
    rw [heq] at hs'
    simpa using serving_keep h (hs'.trans h.router.symm) (hpc ▸ h.late) (by rw [hpc]) hdepth
  cases hv : env.valid p with
  | false => exact hkeep (by simp [reloadRouter, hv]) (by simp [accepts, hv])
  | true =>
    cases hr : Router.reloadConfiguration renv r p.toReloadConfiguration with
    | none => exact hkeep (by simp [reloadRouter, hr]) (by simp [accepts, hr])
    | some x =>
      obtain ⟨code, r'⟩ := x
      obtain ⟨rfl, -, rfl⟩ | ⟨rfl, -, -, -, rfl⟩ | ⟨rfl, hon, -⟩ := Router.reload_cases hr
      · exact hkeep (by simp [reloadRouter, hr]) (by simp [accepts, hr])
      · exact hkeep (by simp [reloadRouter, hr]) (by simp [accepts, hr])
      · have hreload : reloadRouter env p renv r = r' := by simp [reloadRouter, hv, hr]
        have haccepts : accepts env p renv r = true := by simp [accepts, hv, hr]
        have hstep : Router.step renv r (.reload p.toReloadConfiguration) = some r' := by simp [Router.step, hr]
        obtain ⟨he, hl⟩ := Router.lists_of_accepted hr
        obtain ⟨ras, hras⟩ := h.reached
        rw [hreload] at hs' ⊢
        rw [haccepts, if_pos rfl]
        exact
          { router := hs', late := hpc ▸ h.late, utils := h.utils
            reached := ⟨ras ++ [.reload p.toReloadConfiguration], by rw [run_concat hras, hstep]⟩
            enabled := by rw [he, h.enabled, hpc]
            depth := hdepth.trans h.depth
            lists := by
              intro q hq
              rw [← List.cons_append, List.getLast?_concat, Option.mem_some] at hq
              rw [← hq, hl, listsOf]
            known := by
              intro q hq t ht
              apply Router.contains_step h.topicsActive hstep
              rw [← List.cons_append, List.mem_append, List.mem_singleton] at hq
              rcases hq with hq | rfl
              · exact .inl (h.known q hq t ht)
              · exact .inr ⟨t, by simpa [Router.introduced, hon] using ht, same_refl t⟩
            valid := by
              intro q hq
              rw [← List.cons_append, List.mem_append, List.mem_singleton] at hq
              rcases hq with hq | rfl
              · exact h.valid q hq
              · exact hv }

/-- The router is constructed. -/
theorem serving_construct {p : Pointers} {rounds : Nat} {db : Participants}
    (hdb : env.construct rounds p = .returns db) :
    Serving env p [] { s with
      pc := .watch, depth := p.advancedOptions.maxHistoryDepth
      router := some (env.routerOf db, Router.create (env.routerOf db) p.toReloadConfiguration) }
      (env.routerOf db) (Router.create (env.routerOf db) p.toReloadConfiguration) := by
  have hvalid : env.valid p = true := (construct_returns hdb).1
  have hrest : (Router.create (env.routerOf db) p.toReloadConfiguration).rest =
      Router.State.rest { allowedTopics := listsOf p } := by
    rw [Router.create, Router.foldl_rest Router.discoveredTopic_rest]
    rfl
  obtain ⟨he, hl⟩ := Router.fields_of_rest hrest
  refine
    { router := rfl, late := rfl, utils := rfl, reached := ⟨[], rfl⟩, enabled := he, depth := rfl
      lists := fun q hq => ?_
      known := fun q hq t ht => ?_
      valid := fun q hq => ?_ }
  · cases hq
    exact hl
  · cases List.mem_singleton.mp hq
    rw [← OrdMap.isSome_keyOf, ← Router.State.knownAs, Router.knownAs_create]
    exact List.find?_isSome.mpr ⟨t, ht, same_refl t⟩
  · cases List.mem_singleton.mp hq
    exact hvalid

theorem operate_some (h : s.router = some (renv, r)) (f : Router.Env → Router.State → Router.State) :
    (s.operate f).router = some (renv, f renv r) := by
  rw [State.operate, h]
  rfl

theorem consistent_main {L : List Pointers} {registers : Bool} {rounds : Nat} (h : Consistent env L s)
    (hs : step env s (.main registers rounds) = some s') :
    Consistent env (L ++ applied env s (.main registers rounds)) s' := by
  simp only [step] at hs
  rcases h with ⟨rfl, hnone, hpc⟩ | ⟨p₀, rest, renv, r, rfl, h⟩
  · cases hp : s.pc with
    | load =>
      simp only [hp, mainStep] at hs
      simp only [applied, hp]
      split at hs
      · cases hs
        exact .inl ⟨rfl, hnone, .inl rfl⟩
      · cases hs
        exact .inl ⟨rfl, hnone, .inr rfl⟩
    | construct p =>
      simp only [hp, mainStep] at hs
      simp only [applied, hp]
      split at hs
      · rename_i db hdb
        cases hs
        exact .inr ⟨p, [], _, _, rfl, serving_construct hdb⟩
      · cases hs
        exact .inl ⟨rfl, hnone, .inr rfl⟩
      · cases hs
    | watch | periodic | start | wait | resetPeriodic | resetWatcher | stop =>
      simp [hp, MainPc.early, MainPc.isExited] at hpc
    | exited code => simp [hp, mainStep] at hs
  · refine .inr ⟨p₀, rest, ?_⟩
    have hlate := h.late
    cases hp : s.pc with
    | load | construct => simp [hp, MainPc.early] at hlate
    | exited code => simp [hp, mainStep] at hs
    | watch =>
      simp only [hp, mainStep] at hs
      split at hs
      · cases hs
        exact ⟨renv, r, by simp [applied, hp], serving_keep h rfl rfl (by rw [hp]; rfl) rfl⟩
      · cases hs
        exact ⟨renv, r, by simp [applied, hp], serving_keep h rfl rfl (by rw [hp]; rfl) rfl⟩
    | periodic | resetPeriodic | resetWatcher =>
      simp only [hp, mainStep, Option.some.injEq] at hs
      subst hs
      exact ⟨renv, r, by simp [applied, hp], serving_keep h rfl rfl (by rw [hp]; rfl) rfl⟩
    | wait =>
      simp only [hp, mainStep] at hs
      split at hs
      · cases hs
        exact ⟨renv, r, by simp [applied, hp], serving_keep h rfl rfl (by rw [hp]; rfl) rfl⟩
      · cases hs
    | start =>
      simp only [hp, mainStep, Option.some.injEq] at hs
      subst hs
      refine ⟨renv, _, by simp [applied, hp], serving_operate h (a := .start) (by simp) rfl ?_ rfl rfl rfl⟩
      exact operate_some h.router fun renv r => (Router.start renv r).2
    | stop =>
      simp only [hp, mainStep, Option.some.injEq] at hs
      subst hs
      refine ⟨renv, _, by simp [applied, hp], serving_operate h (a := .stop) (by simp) rfl ?_ rfl rfl rfl⟩
      exact operate_some h.router fun _ r => (Router.stop r).2

/-- What leaves the router and `main` alone. -/
theorem consistent_keep {L : List Pointers} (h : Consistent env L s) (hs' : s'.router = s.router)
    (hpc : s'.pc = s.pc) (hdepth : s'.depth = s.depth) : Consistent env L s' := by
  rcases h with ⟨rfl, hnone, hearly⟩ | ⟨p₀, rest, renv, r, rfl, h⟩
  · exact .inl ⟨rfl, hs'.trans hnone, hpc ▸ hearly⟩
  · exact .inr ⟨p₀, rest, renv, r, rfl, serving_keep h hs' (hpc ▸ h.late) (by rw [hpc]) hdepth⟩

theorem fire_frame (env : Env) (s : State) :
    (fire env s).router = s.router ∧ (fire env s).pc = s.pc ∧ (fire env s).depth = s.depth := by
  unfold fire
  split <;> exact ⟨rfl, rfl, rfl⟩

/-- A discovery, which reaches the router while there is one. -/
theorem consistent_discovery {L : List Pointers} (h : Consistent env L s) {a : Router.Action}
    (ha : ∀ c, a ≠ .reload c) (hflag : ∀ b, a.flag b = b) {f : Router.Env → Router.State → Router.State}
    (hf : ∀ renv r, Router.step renv r a = some (f renv r)) : Consistent env L (s.operate f) := by
  rcases h with ⟨rfl, hnone, hearly⟩ | ⟨p₀, rest, renv, r, rfl, h⟩
  · exact .inl ⟨rfl, by rw [State.operate, hnone]; rfl, hearly⟩
  · exact .inr ⟨p₀, rest, renv, f renv r, rfl,
      serving_operate h ha (hf renv r) (operate_some h.router f) h.late (hflag _).symm rfl⟩

theorem consistent_step {L : List Pointers} {a : Action} (h : Consistent env L s)
    (hs : step env s a = some s') : Consistent env (L ++ applied env s a) s' := by
  cases a with
  | main registers rounds => exact consistent_main h hs
  | write file =>
    cases hs
    rw [applied, List.append_nil]
    exact consistent_keep h rfl rfl rfl
  | close =>
    cases hs
    rw [applied, List.append_nil]
    exact consistent_keep h rfl rfl rfl
  | watcherFires =>
    simp only [step] at hs
    split at hs
    · cases hs
      rw [applied, List.append_nil]
      obtain ⟨hr, hp, hd⟩ := fire_frame env s
      exact consistent_keep h hr hp hd
    · cases hs
  | timerFires =>
    simp only [step] at hs
    split at hs
    · cases hs
      rw [applied, List.append_nil]
      obtain ⟨hr, hp, hd⟩ := fire_frame env s
      exact consistent_keep h hr hp hd
    · cases hs
  | discovered e =>
    simp only [step] at hs
    split at hs
    · cases hs
    · cases hs
      rw [applied, List.append_nil]
      exact consistent_discovery h (a := .discovered e) (by simp) (fun _ => rfl) fun _ _ => rfl
  | removed e =>
    simp only [step] at hs
    split at hs
    · cases hs
    · cases hs
      rw [applied, List.append_nil]
      exact consistent_discovery h (a := .removed e) (by simp) (fun _ => rfl) fun _ _ => rfl
  | reload i =>
    simp only [step] at hs
    split at hs
    · cases hs
    · simp only [Option.map_eq_some_iff] at hs
      obtain ⟨p, hp, rfl⟩ := hs
      rcases h with ⟨rfl, hnone, hpc⟩ | ⟨p₀, rest, renv, r, rfl, h⟩
      · exact .inl ⟨by simp [applied, hnone], by simp [State.operate, hnone], hpc⟩
      · refine .inr ⟨p₀, _, renv, _, ?_, serving_reload h p (operate_some h.router _) rfl rfl⟩
        simp [applied, hp, h.router, List.filter_cons]

/-! ### Documents -/

section Read

variable {s₀ : State} {past : List Action} {a : Action} {p : Pointers}

theorem ReadIn.append (h : ReadIn env s₀ past p) (as : List Action) : ReadIn env s₀ (past ++ as) p := by
  obtain ⟨before, after, t, c, rfl, hr, hload⟩ := h
  exact ⟨before, after ++ as, t, c, by rw [List.append_assoc], hr, hload⟩

theorem readIn_now (hr : run (step env) s₀ past = some s) (hload : env.load s = .ok p) (a : Action) :
    ReadIn env s₀ (past ++ [a]) p := by
  unfold Env.load at hload
  cases hc : loadDdsrouterConfigurationFromFile env.libraries s.depth s.file with
  | error e =>
    rw [hc] at hload
    cases hload
  | ok c =>
    rw [hc] at hload
    cases hload
    exact ⟨past, [a], s, c, rfl, hr, hc, env.order_arranges s.readings c⟩

theorem mem_loaded_fire (hp : p ∈ (fire env s).loaded) : p ∈ s.loaded ∨ env.load s = .ok p := by
  unfold fire at hp
  split at hp
  · rename_i q hload
    rcases List.mem_append.mp hp with hp | hp
    · exact .inl hp
    · rw [List.mem_singleton.mp hp]
      exact .inr hload
  · exact .inl hp

/-- `main` reads only when it loads, and leaves the callbacks alone. -/
theorem mainStep_read {registers : Bool} {rounds : Nat} (hs : mainStep env s registers rounds s.pc = some s') :
    s'.loaded = s.loaded ∧ ∀ p, s'.pc = .construct p → env.load s = .ok p := by
  cases hp : s.pc with
  | load =>
    simp only [hp, mainStep] at hs
    split at hs
    · rename_i p hload
      cases hs
      refine ⟨rfl, fun q hq => ?_⟩
      cases hq
      exact hload
    · cases hs
      exact ⟨rfl, by simp⟩
  | construct p =>
    simp only [hp, mainStep] at hs
    split at hs <;> cases hs <;> exact ⟨rfl, by simp⟩
  | watch =>
    simp only [hp, mainStep] at hs
    split at hs <;> cases hs <;> exact ⟨rfl, by simp⟩
  | wait =>
    simp only [hp, mainStep] at hs
    split at hs <;> cases hs
    exact ⟨rfl, by simp⟩
  | periodic | start | resetPeriodic | resetWatcher | stop =>
    simp only [hp, mainStep, Option.some.injEq] at hs
    subst hs
    exact ⟨rfl, by simp⟩
  | exited code => simp [hp, mainStep] at hs

theorem allRead_step (h : AllRead env s₀ past s) (hs : step env s a = some s') : AllRead env s₀ (past ++ [a]) s' := by
  have hreached : run (step env) s₀ (past ++ [a]) = some s' := by rw [run_concat h.reached, hs]
  -- every step but those of `main` keeps its place
  have hplace : ∀ p, s'.pc = s.pc → s'.pc = .construct p → ReadIn env s₀ (past ++ [a]) p :=
    fun p hpc hp => (h.constructing p (hpc ▸ hp)).append [a]
  have hkeep : s'.loaded = s.loaded → s'.pc = s.pc → AllRead env s₀ (past ++ [a]) s' := fun hl hpc =>
    ⟨hreached, fun p hp => (h.loaded p (hl ▸ hp)).append [a], fun p => hplace p hpc⟩
  have hfire : s' = fire env s → AllRead env s₀ (past ++ [a]) s' := by
    rintro rfl
    refine ⟨hreached, fun p hp => ?_, fun p => hplace p (fire_frame env s).2.1⟩
    rcases mem_loaded_fire hp with hp | hload
    · exact (h.loaded p hp).append [a]
    · exact readIn_now h.reached hload a
  cases a with
  | main registers rounds =>
    obtain ⟨hl, hload⟩ := mainStep_read hs
    exact ⟨hreached, fun p hmem => (h.loaded p (hl ▸ hmem)).append _,
      fun p hpc => readIn_now h.reached (hload p hpc) _⟩
  | write | close =>
    cases hs
    exact hkeep rfl rfl
  | watcherFires | timerFires =>
    simp only [step] at hs
    split at hs
    · cases hs
      exact hfire rfl
    · cases hs
  | discovered | removed =>
    simp only [step] at hs
    split at hs
    · cases hs
    · cases hs
      exact hkeep rfl rfl
  | reload i =>
    simp only [step] at hs
    split at hs
    · cases hs
    · simp only [Option.map_eq_some_iff] at hs
      obtain ⟨p, hp, rfl⟩ := hs
      exact ⟨hreached, fun q hmem => (h.loaded q (List.mem_of_mem_eraseIdx hmem)).append _, fun q => hplace q rfl⟩

theorem allRead_run {file : Option Yaml} {as : List Action} (hr : run (step env) { file := file } as = some s) :
    AllRead env { file := file } as s := by
  have h₀ : AllRead env { file := file } [] { file := file } :=
    ⟨rfl, fun p hp => (List.not_mem_nil hp).elim, fun p hp => by cases hp⟩
  exact run_history (fun past s a s' h hs => allRead_step h hs) h₀ hr

/-- What takes effect was read from the file. -/
theorem readIn_of_applied (h : AllRead env s₀ past s) (hp : p ∈ applied env s a) : ReadIn env s₀ past p := by
  cases a with
  | main registers rounds =>
    simp only [applied] at hp
    split at hp
    · rename_i q hpc
      split at hp
      · rw [List.mem_singleton.mp hp]
        exact h.constructing q hpc
      · cases hp
      · cases hp
    · cases hp
  | reload i =>
    have hmem := List.mem_of_mem_filter hp
    rw [Option.mem_toList] at hmem
    exact h.loaded p (List.mem_of_getElem? hmem)
  | write | watcherFires | timerFires | discovered | removed | close => simp [applied] at hp

end Read

theorem consistent_run {file : Option Yaml} {as : List Action} (hr : run (step env) { file := file } as = some s) :
    Consistent env (trace (step env) (applied env) { file := file } as) s :=
  run_traced (fun _ _ _ _ _ h hs => consistent_step h hs) (.inl ⟨rfl, rfl, .inl rfl⟩) hr

/-- At every point of every run, the router has the lists of the last of the
configurations that took effect, each of them was valid as a whole and is the content of
the file as it was at some point before, in an order of the pointers, and the router
knows all the topics that they ask for. The depth of histories stays that of the first
one. A topic has a bridge that is on exactly if it is known and the lists allow it, while
`main` is between the start and the stop of the router. -/
theorem configuration_in_force {file : Option Yaml} {as : List Action}
    (hr : run (step env) { file := file } as = some s) (hrouter : s.router = some (renv, r)) :
    ∃ p₀ rest, trace (step env) (applied env) { file := file } as = p₀ :: rest ∧
      (∀ p ∈ p₀ :: rest, env.valid p = true ∧ ReadIn env { file := file } as p) ∧
      (∀ p ∈ (p₀ :: rest).getLast?, r.allowedTopics = listsOf p) ∧
      (∀ p ∈ p₀ :: rest, ∀ t ∈ p.toReloadConfiguration.builtinTopics, r.currentTopics.contains t = true) ∧
      s.depth = p₀.advancedOptions.maxHistoryDepth ∧
      ∀ t, (∃ b, r.bridges.find t = some b ∧ b.enabled = true) ↔
        s.pc.started = true ∧ ∃ k, r.knownAs t = some k ∧ Router.topicAllowed renv r k = true := by
  have hread : ∀ p ∈ trace (step env) (applied env) { file := file } as, ReadIn env { file := file } as p := by
    intro p hp
    obtain ⟨past, a, rest, t, rfl, hpast, hp⟩ := (mem_trace hr).mp hp
    exact (readIn_of_applied (allRead_run hpast) hp).append _
  rcases consistent_run hr with ⟨-, hnone, -⟩ | ⟨p₀, rest, renv', r', htrace, h⟩
  · rw [hnone] at hrouter
    cases hrouter
  · have heq := h.router
    rw [hrouter] at heq
    cases heq
    rw [htrace] at hread
    obtain ⟨ras, hras⟩ := h.reached
    refine ⟨p₀, rest, htrace, fun p hp => ⟨h.valid p hp, hread p hp⟩, h.lists, h.known, h.depth, fun t => ?_⟩
    rw [Router.exists_bridge_on_iff hras, h.enabled]

def watchedEnv : Env where
  libraries := plainLibraries
  matchPattern p s := p = s
  pointerStr _ := ""
  init _ := none
  order _ c := pointersOf c
  order_arranges _ c := arranges_pointersOf c
  reloadTime := 0

/-- A router for the topic chat, and the names that it blocks. -/
def chatDocument (blocked : List String) : Yaml :=
  .map [("version", .scalar "v3.0"), ("builtin-topics", .sequence [.map (topicEntry "chat" "String")]),
    ("blocklist", .sequence (blocked.map fun name => .map [("name", .scalar name)])),
    ("participants", .sequence [.map [("name", .scalar "p"), ("kind", .scalar "local")],
      .map [("name", .scalar "e"), ("kind", .scalar "echo")]])]

def chatTopic : DdsTopic := { topicName := "chat", typeName := "String" }

/-- The file comes to block chat and the watcher reads it; then the file is gone. When it
is back as it was, there is nothing to reload. -/
def blockedLater : List Action :=
  List.replicate 5 (.main true 1) ++
    [.write (some (chatDocument ["chat"])), .watcherFires, .write none, .watcherFires, .reload 0,
      .write (some (chatDocument ["chat"])), .watcherFires, .reload 0]

theorem chat_blocked_later :
    ∃ s renv r p₀ p₁, run (step watchedEnv) { file := some (chatDocument []) } blockedLater = some s ∧
      s.router = some (renv, r) ∧
      trace (step watchedEnv) (applied watchedEnv) { file := some (chatDocument []) } blockedLater = [p₀, p₁] ∧
      r.allowedTopics = listsOf p₁ ∧ s.pc.started = true ∧
      ¬ ∃ b, r.bridges.find chatTopic = some b ∧ b.enabled = true := by
  have hrun : (run (step watchedEnv) { file := some (chatDocument []) } blockedLater).bind (fun s =>
      s.router.map fun r => (s.pc.started, (r.2.knownAs chatTopic).map (Router.topicAllowed r.1 r.2))) =
        some (true, some false) := by
    decide +kernel
  have hlength : (trace (step watchedEnv) (applied watchedEnv) { file := some (chatDocument []) } blockedLater).length =
      2 := by decide +kernel
  obtain ⟨s, hs, hobs⟩ := Option.bind_eq_some_iff.mp hrun
  obtain ⟨⟨renv, r⟩, hrouter, hobs⟩ := Option.map_eq_some_iff.mp hobs
  obtain ⟨hstarted, hknown⟩ := Prod.mk.injEq .. ▸ hobs
  obtain ⟨p₀, rest, htrace, -, hlists, -, -, hbridge⟩ := configuration_in_force hs hrouter
  rw [htrace] at hlength
  obtain ⟨p₁, rfl⟩ := List.length_eq_one_iff.mp (Nat.succ.inj hlength)
  refine ⟨s, renv, r, p₀, p₁, hs, hrouter, htrace, hlists p₁ rfl, hstarted, ?_⟩
  rw [hbridge]
  rintro ⟨-, k, hk, hallowed⟩
  rw [hk, Option.map_some, hallowed] at hknown
  cases hknown

/-! ### The end of the process -/

/-- How many steps `main` can still take. -/
def MainPc.left : MainPc → Nat
  | .load => 9 | .construct _ => 8 | .watch => 7 | .periodic => 6 | .start => 5
  | .wait => 4 | .resetPeriodic => 3 | .resetWatcher => 2 | .stop => 1 | .exited _ => 0

def Action.isMain : Action → Bool
  | .main _ _ => true
  | _ => false

/-- `main` has not started the router, and maybe never will. -/
def MainPc.unstarted : MainPc → Bool
  | .load | .construct _ | .watch | .periodic | .start | .exited .executionFailed => true
  | .wait | .resetPeriodic | .resetWatcher | .stop | .exited _ => false

/-- What `main` has done about its handlers by the time it is at some place. -/
def Closing (s : State) : Prop :=
  match s.pc with
  | .load | .construct _ | .watch | .periodic | .start | .wait | .exited .executionFailed => True
  | .resetPeriodic => s.closed = true
  | .resetWatcher => s.closed = true ∧ s.timer = false
  | .stop | .exited .success => s.closed = true ∧ s.timer = false ∧ s.watcher = false
  | .exited _ => False

/-- The place of `main`, its handlers and the signals, after a step around it. -/
theorem step_around {a : Action} (ha : a.isMain = false) (hs : step env s a = some s') :
    s'.pc = s.pc ∧ s'.timer = s.timer ∧ s'.watcher = s.watcher ∧ (s.closed = true → s'.closed = true) := by
  have hfire : (fire env s).pc = s.pc ∧ (fire env s).timer = s.timer ∧ (fire env s).watcher = s.watcher ∧
      (s.closed = true → (fire env s).closed = true) := by
    unfold fire
    split <;> exact ⟨rfl, rfl, rfl, id⟩
  cases a with
  | main => cases ha
  | write =>
    cases hs
    exact ⟨rfl, rfl, rfl, id⟩
  | close =>
    cases hs
    exact ⟨rfl, rfl, rfl, fun _ => rfl⟩
  | watcherFires | timerFires =>
    simp only [step] at hs
    split at hs
    · cases hs
      exact hfire
    · cases hs
  | discovered | removed =>
    simp only [step] at hs
    split at hs
    · cases hs
    · cases hs
      exact ⟨rfl, rfl, rfl, id⟩
  | reload i =>
    simp only [step] at hs
    split at hs
    · cases hs
    · obtain ⟨c, -, rfl⟩ := Option.map_eq_some_iff.mp hs
      exact ⟨rfl, rfl, rfl, id⟩

theorem closing_congr (h : Closing s) (hpc : s'.pc = s.pc) (ht : s'.timer = s.timer) (hw : s'.watcher = s.watcher)
    (hc : s.closed = true → s'.closed = true) : Closing s' := by
  unfold Closing at h ⊢
  rw [hpc, ht, hw]
  split <;> simp_all

/-- A step of `main` goes on, and it is started exactly by its start. -/
theorem mainStep_next {registers : Bool} {rounds : Nat} (h : Closing s)
    (hs : mainStep env s registers rounds s.pc = some s') :
    Closing s' ∧ s'.pc.left < s.pc.left ∧ (s'.pc.unstarted = true ↔ s.pc.unstarted = true ∧ s'.pc.started = false) := by
  cases hp : s.pc with
  | load | construct | watch =>
    simp only [hp, mainStep] at hs
    split at hs <;> cases hs <;> simp [Closing, MainPc.left, MainPc.unstarted, MainPc.started]
  | periodic | start =>
    simp only [hp, mainStep, Option.some.injEq] at hs
    subst hs
    simp [Closing, MainPc.left, MainPc.unstarted, MainPc.started]
  | wait =>
    simp only [hp, mainStep] at hs
    split at hs
    · rename_i hclosed
      cases hs
      exact ⟨hclosed, by simp [MainPc.left, MainPc.unstarted]⟩
    · cases hs
  | resetPeriodic | resetWatcher | stop =>
    simp only [hp, mainStep, Option.some.injEq] at hs
    simp only [Closing, hp] at h
    subst hs
    simp_all [Closing, MainPc.left, MainPc.unstarted, State.operate]
  | exited code => simp [hp, mainStep] at hs

/-- There is no router, or it is off. -/
def Off (s : State) : Prop := ∀ renv r, s.router = some (renv, r) → r.enabled = false

theorem off_iff {file : Option Yaml} {as : List Action} (hr : run (step env) { file := file } as = some s) :
    Off s ↔ s.pc.started = false := by
  rcases consistent_run hr with ⟨-, hnone, hpc⟩ | ⟨c₀, rest, renv, r, -, h⟩
  · have hstarted : s.pc.started = false := by
      cases hp : s.pc <;> simp [hp, MainPc.early, MainPc.isExited] at hpc <;> rfl
    simp [Off, hnone, hstarted]
  · constructor
    · intro hoff
      rw [← h.enabled, hoff renv r h.router]
    · intro hstarted renv' r' hrouter
      rw [h.router] at hrouter
      cases hrouter
      rw [h.enabled, hstarted]

/-- Where `main` is in a run, against what the run has seen. -/
structure Place (env : Env) (file : Option Yaml) (past : List Action) (s : State) : Prop where
  reached : run (step env) { file := file } past = some s
  closing : Closing s
  left : past.countP Action.isMain + s.pc.left ≤ 9
  unstarted : s.pc.unstarted = true ↔ Visits (step env) Off { file := file } past

theorem place_step {file : Option Yaml} {past : List Action} {a : Action} (h : Place env file past s)
    (hs : step env s a = some s') : Place env file (past ++ [a]) s' := by
  have hreached : run (step env) { file := file } (past ++ [a]) = some s' := by rw [run_concat h.reached, hs]
  have hvisits := visits_concat (Q := Off) h.reached hs
  rw [off_iff hreached, ← h.unstarted] at hvisits
  have hleft := h.left
  cases ha : a.isMain with
  | true =>
    obtain ⟨registers, rounds, rfl⟩ : ∃ registers rounds, a = .main registers rounds := by
      cases a <;> simp [Action.isMain] at ha
      exact ⟨_, _, rfl⟩
    obtain ⟨hclosing, hless, hunstarted⟩ := mainStep_next h.closing hs
    refine ⟨hreached, hclosing, ?_, hunstarted.trans hvisits.symm⟩
    rw [List.countP_append, List.countP_singleton, if_pos ha]
    omega
  | false =>
    obtain ⟨hpc, ht, hw, hc⟩ := step_around ha hs
    refine ⟨hreached, closing_congr h.closing hpc ht hw hc, ?_, ?_⟩
    · rw [List.countP_append, List.countP_singleton, ha, hpc]
      simpa using hleft
    · -- what has not been started is off
      have hoff : s.pc.unstarted = true → s.pc.started = false := by
        cases hp : s.pc <;> simp [MainPc.unstarted, MainPc.started]
      rw [hvisits, hpc]
      exact ⟨fun hu => ⟨hu, hoff hu⟩, fun hu => hu.1⟩

theorem place_run {file : Option Yaml} {as : List Action} (hr : run (step env) { file := file } as = some s) :
    Place env file as s := by
  have h₀ : Place env file [] { file := file } :=
    ⟨rfl, trivial, by simp [MainPc.left], by simp [MainPc.unstarted, Visits, Off]⟩
  exact run_history (fun _ _ _ _ h hs => place_step h hs) h₀ hr

/-- `main` is in the constructor of a router and will never leave it. -/
def Stuck (env : Env) (s : State) : Prop :=
  ∃ p, s.pc = .construct p ∧ Endless env.libraries.dds env.pointerStr env.init p

/-- After a signal to close, `main` goes on as long as it has not exited, except where the
constructor of the router does not return. -/
theorem main_goes_on_iff (hclosed : s.closed = true) (hgoing : s.pc.isExited = false) (registers : Bool) :
    (∃ rounds s', step env s (.main registers rounds) = some s') ↔ ¬ Stuck env s := by
  simp only [step]
  cases hp : s.pc with
  | construct p =>
    have hstuck : Stuck env s ↔ ∀ rounds, env.construct rounds p = .running := by
      simp only [Stuck, hp, MainPc.construct.injEq, exists_eq_left']
      exact construct_running_iff.symm
    rw [hstuck, not_forall]
    refine exists_congr fun rounds => ?_
    simp only [mainStep]
    cases env.construct rounds p with
    | running => simp
    | returns | throws => simp
  | exited code => simp [hp, MainPc.isExited] at hgoing
  | load | watch | periodic | start | wait | resetPeriodic | resetWatcher | stop =>
    have hfree : ¬ Stuck env s := by
      rintro ⟨p, hpc, -⟩
      rw [hp] at hpc
      cases hpc
    refine iff_of_true ⟨0, ?_⟩ hfree
    simp only [mainStep, hclosed, if_true]
    first
    | exact ⟨_, rfl⟩
    | split <;> exact ⟨_, rfl⟩

/-- The router is told to close while a callback has yet to reload it. -/
def closedWhileReloading : List Action :=
  List.replicate 5 (.main true 1) ++ [.watcherFires, .close] ++ List.replicate 4 (.main true 1)

end Tool

end DDSRouter
