import TestForge.RunnerFramework
import TestForge.SpecRegistration

/-! A run during which a registered suite is registered again: `registerSpecSuite` is one
removal and one insertion for each test, and the runner looks up every test by itself. -/
namespace TestForge.Reregistration

open Strings TestRegistry

/-- A registry that holds a suite, and a run over tests of the registry. `makes` says what
a call of a factory can come to. -/
structure Setting (Factory : Type) where
  plan : Runner.Plan
  registry : TestRegistry Factory
  specTestCase : TestMetadata → TestSpec → Factory
  suite : TestSpecSuite
  ai : AiConfig
  config : ApiConfig
  makes : Factory → Runner.Creation → Bool
  held : HoldsSuite registry suite.suite (acceptedEntries specTestCase suite ai config)
  selected : ∀ metadata ∈ plan.selected, registry.contains metadata.qualifiedName = true

/-- The call of `registerSpecSuite`: not begun, or behind the removal with some tests to
be put back. -/
inductive Call (Factory : Type) where
  | waiting
  | inserting (pending : List (Entry Factory))

structure State (Factory : Type) where
  runner : Runner.State
  registry : TestRegistry Factory
  call : Call Factory

inductive Action where
  | run (action : Runner.Action)
  | remove
  | insert

def Action.isRun : Action → Bool
  | .run _ => true
  | _ => false

variable {Factory : Type} (setting : Setting Factory)

namespace Setting

def accepted : List (Entry Factory) :=
  acceptedEntries setting.specTestCase setting.suite setting.ai setting.config

def start : State Factory := ⟨Runner.initial,setting.registry,.waiting⟩

/-- What `TestRegistry::create` can come to for a test of the plan. -/
def comes (registry : TestRegistry Factory) (i : Nat) (creation : Runner.Creation) : Bool :=
  match registry.create (setting.plan.test i).qualifiedName with
  | none => creation == .nothing
  | some factory => setting.makes factory creation

/-- The runner's lookups go by the registry, its other steps do not see it. -/
def agrees (registry : TestRegistry Factory) : Runner.Action → Bool
  | .task i (.create creation _) => setting.comes registry i creation
  | _ => true

end Setting

def step (action : Action) (s : State Factory) : Option (State Factory) :=
  match action with
  | .run action =>
    if setting.agrees s.registry action then
      (Runner.step setting.plan action s.runner).map fun runner => { s with runner }
    else none
  | .remove =>
    match s.call with
    | .waiting =>
      some { s with
        registry := (s.registry.removeSuite setting.suite.suite).1, call := .inserting setting.accepted }
    | .inserting _ => none
  | .insert =>
    match s.call with
    | .inserting (entry :: rest) =>
      some { s with
        registry := s.registry.registerOrReplace entry.metadata entry.factory, call := .inserting rest }
    | _ => none

/-- What a step can do. -/
inductive Move (s : State Factory) : Action → State Factory → Prop where
  | run (agreed : setting.agrees s.registry action = true)
      (taken : Runner.step setting.plan action s.runner = some runner) : Move s (.run action) { s with runner }
  | remove (waiting : s.call = .waiting) :
      Move s .remove { s with
        registry := (s.registry.removeSuite setting.suite.suite).1, call := .inserting setting.accepted }
  | insert (pending : s.call = .inserting (entry :: rest)) :
      Move s .insert { s with
        registry := s.registry.registerOrReplace entry.metadata entry.factory, call := .inserting rest }

variable {setting} {s next : State Factory} {action : Action}

theorem step_move (taken : step setting action s = some next) : Move setting s action next := by
  cases action with
  | run action =>
    simp only [step] at taken
    split at taken
    · next agreed =>
      obtain ⟨runner,moved,rfl⟩ := Option.map_eq_some_iff.mp taken
      exact .run agreed moved
    · cases taken
  | remove =>
    cases call : s.call <;> simp only [step,call,reduceCtorEq] at taken
    obtain rfl := Option.some.inj taken
    exact .remove call
  | insert =>
    cases call : s.call with
    | waiting => simp [step,call] at taken
    | inserting pending =>
      cases pending with
      | nil => simp [step,call] at taken
      | cons entry rest =>
        simp only [step,call] at taken
        obtain rfl := Option.some.inj taken
        exact .insert call

/-! ### The window of a test -/

/-- The tests of the suite that are removed and not yet put back. -/
def Call.pending : Call Factory → List (Entry Factory)
  | .waiting => []
  | .inserting pending => pending

def Call.missing (call : Call Factory) (name : Bytes) : Prop :=
  name ∈ call.pending.map (·.metadata.qualifiedName)

/-- A lookup finds what it finds in the registry before the call, except in the window of
its test, where it finds nothing. -/
structure Window (setting : Setting Factory) (s : State Factory) : Prop where
  accepted : ∀ entry ∈ s.call.pending, entry ∈ setting.accepted
  distinct : (s.call.pending.map (·.metadata.qualifiedName)).Nodup
  found : ∀ name, ¬s.call.missing name → s.registry.lookup name = setting.registry.lookup name
  missed : ∀ name, s.call.missing name → s.registry.lookup name = none

theorem Setting.lookup_accepted {entry : Entry Factory} (accepted : entry ∈ setting.accepted) :
    setting.registry.lookup entry.metadata.qualifiedName = some entry :=
  (setting.held _ entry (acceptedEntries_suite _ accepted)).mpr ⟨accepted,rfl⟩

theorem Window.start (setting : Setting Factory) : Window setting setting.start where
  accepted := by simp [Setting.start,Call.pending]
  distinct := by simp [Setting.start,Call.pending]
  found _ _ := rfl
  missed name gone := by simp [Setting.start,Call.missing,Call.pending] at gone

theorem Window.remove (window : Window setting s) (waiting : s.call = .waiting) :
    Window setting { s with
      registry := (s.registry.removeSuite setting.suite.suite).1, call := .inserting setting.accepted } where
  accepted _ member := member
  distinct := acceptedEntries_distinct _ _ _ _
  found name present := by
    have before := window.found name (by simp [waiting,Call.missing,Call.pending])
    show TestRegistry.lookup (s.registry.removeSuite setting.suite.suite).1 name = _
    rw [lookup_removeSuite,before]
    cases here : setting.registry.lookup name with
    | none => rfl
    | some entry =>
      have foreign : entry.metadata.suite ≠ setting.suite.suite := fun mine => by
        obtain ⟨accepted,same⟩ := (setting.held name entry mine).mp here
        exact present (List.mem_map.mpr ⟨entry,accepted,same⟩)
      simp [Option.filter,foreign]
  missed name gone := by
    obtain ⟨entry,accepted,rfl⟩ := List.mem_map.mp gone
    have before := window.found entry.metadata.qualifiedName (by simp [waiting,Call.missing,Call.pending])
    have mine := acceptedEntries_suite _ accepted
    show TestRegistry.lookup (s.registry.removeSuite setting.suite.suite).1 _ = _
    rw [lookup_removeSuite,before,Setting.lookup_accepted accepted]
    simp [Option.filter,mine]

theorem Window.insert {entry : Entry Factory} {rest : List (Entry Factory)} (window : Window setting s)
    (pending : s.call = .inserting (entry :: rest)) :
    Window setting { s with
      registry := s.registry.registerOrReplace entry.metadata entry.factory, call := .inserting rest } := by
  obtain ⟨accepted,distinct,found,missed⟩ := window
  simp only [pending,Call.pending,Call.missing,List.map_cons,List.mem_cons,List.nodup_cons] at accepted distinct found missed
  refine ⟨fun other member => accepted other (.inr member),distinct.2,fun name present => ?_,fun name gone => ?_⟩
  · show TestRegistry.lookup (s.registry.registerOrReplace entry.metadata entry.factory) name = _
    rw [lookup_registerOrReplace]
    split
    · next mine => rw [← mine,Setting.lookup_accepted (accepted entry (.inl rfl))]
    · next other => exact found name (by rintro (rfl | later); exacts [other rfl,present later])
  · have other : entry.metadata.qualifiedName ≠ name := fun same => distinct.1 (same ▸ gone)
    show TestRegistry.lookup (s.registry.registerOrReplace entry.metadata entry.factory) name = _
    rw [lookup_registerOrReplace,if_neg other]
    exact missed name (.inr gone)

theorem Window.step (window : Window setting s) (taken : step setting action s = some next) :
    Window setting next := by
  cases step_move taken with
  | run agreed moved => exact ⟨window.accepted,window.distinct,window.found,window.missed⟩
  | remove waiting => exact window.remove waiting
  | insert pending => exact window.insert pending

/-- The insertions put back what the function puts back. -/
theorem run_insertions (runner : Runner.State) (registry : TestRegistry Factory) (pending : List (Entry Factory)) :
    Transition.run (step setting) (List.replicate pending.length .insert) ⟨runner,registry,.inserting pending⟩ =
      some ⟨runner,registerEntries registry pending,.inserting []⟩ := by
  induction pending generalizing registry with
  | nil => rfl
  | cons entry rest ih =>
    rw [List.length_cons,List.replicate_succ,Transition.run_cons]
    exact ih _

/-- Taken in one piece, the steps of the call are the function. -/
theorem run_call (again : TestRegistry Factory) (registered : Nat)
    (ok : registerSpecSuite setting.specTestCase setting.registry setting.suite setting.ai setting.config =
      .ok (again,registered)) :
    Transition.run (step setting) (.remove :: List.replicate setting.accepted.length .insert) setting.start =
      some ⟨Runner.initial,again,.inserting []⟩ := by
  rw [registerSpecSuite_ok ok,Transition.run_cons]
  exact run_insertions _ _ _

/-! ### Lookups outside the windows -/

/-- The test that a step looks up. -/
def Action.looksUp : Action → Option Nat
  | .run (.task i (.create _ _)) => some i
  | _ => none

/-- A lookup of the runner does not fall into the window of its test. -/
def OutsideWindow (setting : Setting Factory) (s : State Factory) (action : Action) : Prop :=
  ∀ i ∈ action.looksUp, ¬s.call.missing (setting.plan.test i).qualifiedName

instance (setting : Setting Factory) (s : State Factory) (action : Action) :
    Decidable (OutsideWindow setting s action) :=
  inferInstanceAs (Decidable (∀ i ∈ action.looksUp, (setting.plan.test i).qualifiedName ∉ _))

theorem Window.create (window : Window setting s) {name : Bytes} (outside : ¬s.call.missing name) :
    s.registry.create name = setting.registry.create name := by
  rw [TestRegistry.create,window.found name outside]
  rfl

theorem Window.agrees (window : Window setting s) {action : Runner.Action}
    (outside : OutsideWindow setting s (.run action)) :
    setting.agrees setting.registry action = setting.agrees s.registry action := by
  unfold Setting.agrees
  split
  · next i creation stamp =>
    unfold Setting.comes
    rw [window.create (outside i rfl)]
  · rfl

/-- The run as it is without the call. -/
structure Undisturbed (setting : Setting Factory) (s alone : State Factory) : Prop where
  window : Window setting s
  runner : alone.runner = s.runner
  registry : alone.registry = setting.registry

theorem Undisturbed.kept {alone : State Factory} (undisturbed : Undisturbed setting s alone)
    (outside : OutsideWindow setting s action) (seen : action.isRun = true)
    (taken : step setting action s = some next) :
    ∃ later, step setting action alone = some later ∧ Undisturbed setting next later := by
  have window := undisturbed.window.step taken
  cases step_move taken with
  | @run action runner agreed moved =>
    refine ⟨{ alone with runner },?_,⟨window,rfl,undisturbed.registry⟩⟩
    have same : setting.agrees alone.registry action = true := by
      rw [undisturbed.registry,undisturbed.window.agrees outside,agreed]
    simp only [step,same,if_true,undisturbed.runner,moved,Option.map_some]
  | remove waiting => cases seen
  | insert pending => cases seen

theorem Undisturbed.skipped {alone : State Factory} (undisturbed : Undisturbed setting s alone)
    (unseen : action.isRun = false) (taken : step setting action s = some next) : Undisturbed setting next alone := by
  have window := undisturbed.window.step taken
  cases step_move taken with
  | run agreed moved => cases unseen
  | remove waiting => exact ⟨window,undisturbed.runner,undisturbed.registry⟩
  | insert pending => exact ⟨window,undisturbed.runner,undisturbed.registry⟩

/-! ### Framework errors -/

/-- The steps by which the code of test `i` itself makes its result a framework error. -/
def OwnFault (setting : Setting Factory) (i : Nat) : Action → Prop
  | .run (.task j (.create .nothing _)) => j = i ∧ ∃ factory,
      setting.registry.create (setting.plan.test i).qualifiedName = some factory ∧
        setting.makes factory .nothing = true
  | .run (.task j (.bodyEnds record)) => j = i ∧ record.outcome.blames = true
  | _ => False

/-- What carries the innocence of a test through a run. -/
structure Guarded (setting : Setting Factory) (i : Nat) (s : State Factory) : Prop where
  window : Window setting s
  control : Runner.Control setting.plan s.runner
  innocent : Runner.Innocent i s.runner

theorem Guarded.unblamed {i : Nat} {action : Runner.Action} (guarded : Guarded setting i s)
    (outside : OutsideWindow setting s (.run action)) (clean : ¬OwnFault setting i (.run action))
    (agreed : setting.agrees s.registry action = true) {runner : Runner.State}
    (taken : Runner.step setting.plan action s.runner = some runner) : ¬Runner.Blamed i action := by
  intro blamed
  unfold Runner.Blamed at blamed
  split at blamed
  · next j stamp =>
    subst blamed
    have started : s.runner.tasks j ≠ .waiting := fun waiting => by
      simp [Runner.step,Runner.taskStep,waiting] at taken
    have inside := guarded.control.selected j started
    have listed : setting.plan.test j ∈ setting.plan.selected := by
      rw [Runner.Plan.test,List.getD_eq_getElem?_getD,List.getElem?_eq_getElem inside]
      exact List.getElem_mem _
    have registered := setting.selected _ listed
    obtain ⟨entry,found⟩ := Option.isSome_iff_exists.mp registered
    have created : setting.registry.create (setting.plan.test j).qualifiedName = some entry.factory := by
      rw [TestRegistry.create,found]
      rfl
    refine clean ⟨rfl,entry.factory,created,?_⟩
    rw [← guarded.window.agrees outside] at agreed
    simpa [Setting.agrees,Setting.comes,created] using agreed
  · exact clean blamed
  · exact blamed

theorem Guarded.step {i : Nat} (guarded : Guarded setting i s) (outside : OutsideWindow setting s action)
    (clean : ¬OwnFault setting i action) (taken : step setting action s = some next) : Guarded setting i next := by
  have window := guarded.window.step taken
  cases step_move taken with
  | run agreed moved =>
    exact ⟨window,guarded.control.step moved,
      guarded.innocent.step (guarded.unblamed outside clean agreed moved) moved⟩
  | remove waiting => exact ⟨window,guarded.control,guarded.innocent⟩
  | insert pending => exact ⟨window,guarded.control,guarded.innocent⟩

/-! ### The run does not see the call -/

def exitCode (s : State Factory) : Option Nat :=
  match s.runner.main with
  | .returned run => some run.exitCode
  | _ => none

/-- The runner is where it would be without the call, and what is a framework error is one
by the code of its own test. -/
structure Invisible (setting : Setting Factory) (labels : List Action) (s : State Factory) : Prop where
  alone : ∃ alone, Transition.run (step setting) (labels.filter Action.isRun) setting.start = some alone ∧
    alone.runner = s.runner ∧ exitCode alone = exitCode s
  own : ∀ i result, (i,result) ∈ s.runner.results → result.failureCategory = .frameworkError →
    ∃ action ∈ labels, OwnFault setting i action

theorem runs_invisible (setting : Setting Factory) (labels : List Action) (s : State Factory)
    (path : Transition.run (step setting) labels setting.start = some s)
    (along : Transition.Along (step setting) (OutsideWindow setting) labels setting.start) :
    Invisible setting labels s where
  alone := by
    obtain ⟨alone,path',undisturbed⟩ := Transition.run_filter (step setting) (step setting) (OutsideWindow setting)
      Action.isRun (Undisturbed setting)
      (fun action s next other undisturbed outside seen taken => undisturbed.kept outside seen taken)
      (fun action s next other undisturbed _ unseen taken => undisturbed.skipped unseen taken)
      labels setting.start s setting.start along path ⟨.start setting,rfl,rfl⟩
    refine ⟨alone,path',undisturbed.runner,?_⟩
    rw [exitCode,exitCode,undisturbed.runner]
  own i result recorded framework := by
    by_contra nobody
    simp only [not_exists,not_and] at nobody
    have guarded := Transition.run_invariant_along (step setting)
      (fun s action => OutsideWindow setting s action ∧ action ∈ labels) (Guarded setting i)
      (fun action s next guarded permitted taken =>
        guarded.step permitted.1 (nobody action permitted.2) taken) labels setting.start s
      (along.and_mem labels _) path
      ⟨.start setting,.initial _,.initial i⟩
    exact guarded.innocent.recorded result recorded framework

/-- The registry behind the first registration of the one test "a.t". -/
def registeredOnce : TestRegistry Nat :=
  registerEntries (TestRegistry.clear.removeSuite (ascii "a")).1
    (acceptedEntries (fun _ _ => 0) (generatedSuite (ascii "t")) {} {})

theorem registeredOnce_ok : ∃ registered, registerSpecSuite (fun _ _ => 0) TestRegistry.clear
    (generatedSuite (ascii "t")) {} {} = .ok (registeredOnce,registered) :=
  ⟨_,registerSpecSuite_of_valid (generatedSuite_valid (ascii "t") (by simp))⟩

/-- Every factory makes its test. -/
def onlySuite : Setting Nat where
  plan := { selected := [{ suite := ascii "a", name := ascii "t" }], distinct := by simp }
  registry := registeredOnce
  specTestCase := fun _ _ => 0
  suite := generatedSuite (ascii "t")
  ai := {}
  config := {}
  makes := fun _ creation => creation == .made
  held := registeredOnce_ok.elim fun _ ok => holdsSuite_of_ok ok
  selected := by decide

def entered : List Action :=
  [.run (.start none),.run .call,.run (.task 0 .begin),.run (.task 0 (.observerStarted none)),.run (.task 0 (.enter {}))]

def executed : List Action :=
  [.run (.task 0 (.create .made {})),.run (.task 0 .register),.run (.task 0 (.check {})),.run (.task 0 .startBody),
    .run (.task 0 (.bodyEnds { outcome := .returned })),.run (.task 0 (.verdict {})),.run (.task 0 .leave)]

def closed : List Action :=
  [.run (.task 0 .conclude),.run (.task 0 (.record .null)),.run (.task 0 (.observerFinished none)),.run .advance,
    .run (.collect 0 0),.run (.close none)]

/-- The whole call between two steps of the runner. -/
def servedRun : List Action := entered ++ [.remove,.insert] ++ executed ++ closed

/-- The lookup falls between the removal of its test and its insertion. -/
def missedRun : List Action := entered ++ [.remove,.run (.task 0 (.create .nothing {})),.insert] ++ closed

theorem runs_invisible_served : ∃ s, Transition.run (step onlySuite) servedRun onlySuite.start = some s ∧
    exitCode s = some 0 ∧ Invisible onlySuite servedRun s := by
  have ends : (Transition.run (step onlySuite) servedRun onlySuite.start).map exitCode = some (some 0) := by
    decide +kernel
  obtain ⟨s,path,zero⟩ := Option.map_eq_some_iff.mp ends
  exact ⟨s,path,zero,runs_invisible onlySuite servedRun s path (by decide)⟩

theorem lookup_missed : ∃ s, Transition.run (step onlySuite) missedRun onlySuite.start = some s ∧
    s.runner.results.map (fun entry => (entry.1,entry.2.failureCategory)) = [(0,.frameworkError)] ∧
    exitCode s = some 2 ∧
    (Transition.run (step onlySuite) (entered ++ executed ++ closed) onlySuite.start).map exitCode = some (some 0) ∧
    ¬Invisible onlySuite missedRun s := by
  have ends : (Transition.run (step onlySuite) missedRun onlySuite.start).map (fun s =>
      (s.runner.results.map fun entry => (entry.1,entry.2.failureCategory),exitCode s)) =
        some ([(0,.frameworkError)],some 2) := by decide +kernel
  have stuck : (Transition.run (step onlySuite) (missedRun.filter Action.isRun) onlySuite.start).isSome = false := by
    decide
  obtain ⟨s,path,seen⟩ := Option.map_eq_some_iff.mp ends
  obtain ⟨results,two⟩ := Prod.mk.inj seen
  refine ⟨s,path,results,two,by decide +kernel,fun invisible => ?_⟩
  obtain ⟨alone,path',_⟩ := invisible.alone
  simp [path'] at stuck

end TestForge.Reregistration
