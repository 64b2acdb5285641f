import TestForge.RunnerExitCode

/-! `Commands::run` under signals: the watcher thread, the slot of the active runner in
`TestForgeService`, and the runner, with every mutex section one step. -/
namespace TestForge.Interrupt

open Strings

inductive Signal where
  | interrupt | terminate
  deriving DecidableEq, Repr

def Signal.number : Signal → Nat
  | .interrupt => 2
  | .terminate => 15

/-- The watcher: at the head of its loop, about to read the flag, with the flag seen,
holding `cancelMutex_`, inside the runner's `requestCancellation`, at its end. -/
inductive Watcher where
  | looping | polling | observed | holding | calling | done
  deriving DecidableEq, Repr

/-- `TestForgeService::run`. The slot is published from `running` up to `returned` or
`threw`. -/
inductive Service where
  | entering
  | running
  | reporting (run : TestRun)
  | throwing
  | returned (run : TestRun)
  | threw

def Service.published : Service → Bool
  | .running => true
  | .reporting _ => true
  | .throwing => true
  | _ => false

/-- An exception out of the service finds the watcher joinable and terminates. -/
inductive Command where
  | serving
  | joining (run : TestRun)
  | exited (code : Nat)
  | terminated

structure State where
  watcher : Watcher := .looping
  service : Service := .entering
  command : Command := .serving
  runFinished : Bool := false
  signal : Option Signal := none
  runner : Runner.State := Runner.initial

inductive Action where
  | deliver (signal : Signal)
  | look
  | poll
  | acquire
  | request
  | release
  | publish
  | runner (action : Runner.Action)
  | write
  | writerThrows
  | unwind
  | retire
  | finish
  | join

def initial : State := {}

def cancellationReason : Bytes := ascii "interrupted by signal"

/-- The end of `Commands::run`. -/
def exitStatus (signal : Option Signal) (run : TestRun) : Nat :=
  match run.exitCode with
  | 0 => 0
  | 2 => 3
  | 4 =>
    match signal with
    | some signal => 128 + signal.number
    | none => 1
  | _ => 1

/-- `cancelMutex_` outside the one-step sections of the service. -/
def mutexHeld (s : State) : Bool := s.watcher == .holding || s.watcher == .calling

def step (plan : Runner.Plan) (action : Action) (s : State) : Option State :=
  match action, s.watcher, s.service, s.command with
  -- the first signal stays
  | .deliver signal, _, _, _ => some { s with signal := some (s.signal.getD signal) }
  | .look, .looping, _, _ =>
    some { s with watcher := if s.runFinished then .done else .polling }
  | .poll, .polling, _, _ =>
    some { s with watcher := if s.signal.isSome then .observed else .looping }
  | .acquire, .observed, _, _ => some { s with watcher := .holding }
  | .request, .holding, service, _ =>
    if service.published then
      (Runner.step plan (.request cancellationReason) s.runner).map fun runner =>
        { s with watcher := .calling, runner }
    else some { s with watcher := .done }
  | .release, .calling, _, _ =>
    if s.runner.requests.isEmpty && s.runner.sweep.isNone then some { s with watcher := .done }
    else none
  | .publish, _, .entering, _ => if mutexHeld s then none else some { s with service := .running }
  | .runner (.request _), _, _, _ => none
  -- behind the end of its run the runner still finishes a call of the watcher
  | .runner action, _, service, _ =>
    if service.published then
      (Runner.step plan action s.runner).map fun runner => { s with runner }
    else none
  | .write, _, .running, _ =>
    match s.runner.main with
    | .returned run => some { s with service := .reporting run }
    | _ => none
  | .writerThrows, _, .reporting _, _ => some { s with service := .throwing }
  | .unwind, _, .running, _ =>
    match s.runner.main with
    | .threw _ => some { s with service := .throwing }
    | _ => none
  | .retire, _, .reporting run, _ =>
    if mutexHeld s then none else some { s with service := .returned run }
  | .retire, _, .throwing, _ =>
    if mutexHeld s then none else some { s with service := .threw, command := .terminated }
  | .finish, _, .returned run, .serving =>
    some { s with runFinished := true, command := .joining run }
  | .join, .done, _, .joining run => some { s with command := .exited (exitStatus s.signal run) }
  | _, _, _, _ => none

theorem exitStatus_ne_zero (signal : Option Signal) (run : TestRun) (nonzero : run.exitCode ≠ 0) :
    exitStatus signal run ≠ 0 := by
  unfold exitStatus
  split
  · contradiction
  · decide
  · split <;> omega
  · decide

/-- What a step does to the runner and to its environment. -/
inductive Move (plan : Runner.Plan) (s : State) : Action → State → Prop where
  | deliver (signal : Signal) :
      Move plan s (.deliver signal) { s with signal := some (s.signal.getD signal) }
  | look (here : s.watcher = .looping) :
      Move plan s .look { s with watcher := if s.runFinished then .done else .polling }
  | poll (here : s.watcher = .polling) :
      Move plan s .poll { s with watcher := if s.signal.isSome then .observed else .looping }
  | acquire (here : s.watcher = .observed) : Move plan s .acquire { s with watcher := .holding }
  | request (runner : Runner.State) (here : s.watcher = .holding)
      (published : s.service.published = true)
      (taken : Runner.step plan (.request cancellationReason) s.runner = some runner) :
      Move plan s .request { s with watcher := .calling, runner }
  | tooEarlyOrLate (here : s.watcher = .holding) (hidden : s.service.published = false) :
      Move plan s .request { s with watcher := .done }
  | release (here : s.watcher = .calling) : Move plan s .release { s with watcher := .done }
  | publish (here : s.service = .entering) : Move plan s .publish { s with service := .running }
  | runner (action : Runner.Action) (runner : Runner.State)
      (published : s.service.published = true) (inside : ∀ reason, action ≠ .request reason)
      (taken : Runner.step plan action s.runner = some runner) :
      Move plan s (.runner action) { s with runner }
  | write (run : TestRun) (here : s.service = .running) (returned : s.runner.main = .returned run) :
      Move plan s .write { s with service := .reporting run }
  | writerThrows (run : TestRun) (here : s.service = .reporting run) :
      Move plan s .writerThrows { s with service := .throwing }
  | unwind (escape : Runner.Escape) (here : s.service = .running)
      (threw : s.runner.main = .threw escape) : Move plan s .unwind { s with service := .throwing }
  | retire (run : TestRun) (here : s.service = .reporting run) :
      Move plan s .retire { s with service := .returned run }
  | retireThrowing (here : s.service = .throwing) :
      Move plan s .retire { s with service := .threw, command := .terminated }
  | finish (run : TestRun) (here : s.service = .returned run) (serving : s.command = .serving) :
      Move plan s .finish { s with runFinished := true, command := .joining run }
  | join (run : TestRun) (here : s.command = .joining run) :
      Move plan s .join { s with command := .exited (exitStatus s.signal run) }

theorem step_move {plan : Runner.Plan} {s next : State} {action : Action}
    (taken : step plan action s = some next) : Move plan s action next := by
  unfold step at taken
  split at taken
  case h_1 => cases taken; exact .deliver _
  case h_2 here => cases taken; exact .look here
  case h_3 here => cases taken; exact .poll here
  case h_4 here => cases taken; exact .acquire here
  case h_5 here =>
    split at taken
    next published =>
      obtain ⟨runner,moved,rfl⟩ := Option.map_eq_some_iff.mp taken
      exact .request runner here published moved
    next hidden => cases taken; exact .tooEarlyOrLate here (by simpa using hidden)
  case h_6 here => split at taken <;> cases taken; exact .release here
  case h_7 here => split at taken <;> cases taken; exact .publish here
  case h_8 => contradiction
  case h_9 inside =>
    split at taken
    next published =>
      obtain ⟨runner,moved,rfl⟩ := Option.map_eq_some_iff.mp taken
      exact .runner _ runner published (fun reason equal => inside reason equal) moved
    next => contradiction
  case h_10 here =>
    split at taken <;> cases taken
    next returned => exact .write _ here returned
  case h_11 here => cases taken; exact .writerThrows _ here
  case h_12 here =>
    split at taken <;> cases taken
    next threw => exact .unwind _ here threw
  case h_13 here => split at taken <;> cases taken; exact .retire _ here
  case h_14 here => split at taken <;> cases taken; exact .retireThrowing here
  case h_15 here serving => cases taken; exact .finish _ here serving
  case h_16 here => cases taken; exact .join _ here
  case h_17 => contradiction

variable {plan : Runner.Plan} {s next : State} {action : Action}

/-- How the runner's end shows in the service and in the command. -/
def Linked (s : State) : Prop :=
  match s.service, s.command with
  | .entering, .serving | .running, .serving | .throwing, .serving | .threw, .terminated => True
  | .reporting run, .serving | .returned run, .serving => s.runner.main = .returned run
  | .returned run, .joining joined => s.runner.main = .returned run ∧ joined = run
  | .returned run, .exited code => s.runner.main = .returned run ∧
      ∃ signal, code = exitStatus signal run
  | _, _ => False

/-- `run` returns or throws once. -/
theorem main_terminal {runner moved : Runner.State} {action : Runner.Action}
    (ended : (∃ run, runner.main = .returned run) ∨ ∃ escape, runner.main = .threw escape)
    (taken : Runner.step plan action runner = some moved) : moved.main = runner.main := by
  cases Runner.step_move taken with
  | main action main move => cases move <;> simp_all
  | submit j here => simp [here] at ended
  | task i action phase effect move => simp [Runner.State.setPhase]
  | _ => rfl

theorem request_main {runner : Runner.State} (reason : Bytes)
    (taken : Runner.step plan (.request reason) s.runner = some runner) :
    runner.main = s.runner.main := by
  obtain rfl := Option.some.inj taken
  rfl

theorem Linked.step (linked : Linked s) (taken : Interrupt.step plan action s = some next) :
    Linked next := by
  cases step_move taken with
  | request runner here published moved =>
    have main := request_main cancellationReason moved
    unfold Linked at linked ⊢
    simpa only [main] using linked
  | runner action runner published inside moved =>
    unfold Linked at linked ⊢
    cases service : s.service <;> cases command : s.command <;>
      simp only [service,command,Service.published,Bool.false_eq_true] at linked published ⊢
    exact (main_terminal (.inl ⟨_,linked⟩) moved).trans linked
  | publish here | write _ here | writerThrows _ here | unwind _ here
  | retire _ here | retireThrowing here | finish _ here =>
    unfold Linked at linked ⊢
    cases command : s.command <;> cases service : s.service <;> simp_all
  | join run here =>
    unfold Linked at linked ⊢
    cases service : s.service <;> simp only [here,service] at linked ⊢
    exact ⟨linked.1,s.signal,by rw [linked.2]⟩
  | _ => exact linked

structure Coupled (plan : Runner.Plan) (s : State) : Prop where
  sound : Runner.Sound plan s.runner
  known : Runner.ReasonKnown s.runner
  linked : Linked s

theorem Coupled.initial (plan : Runner.Plan) : Coupled plan initial where
  sound := .initial plan
  known := fun reason impossible => by contradiction
  linked := trivial

theorem Coupled.step (coupled : Coupled plan s) (taken : Interrupt.step plan action s = some next) :
    Coupled plan next := by
  have linked := coupled.linked.step taken
  cases step_move taken with
  | request runner here published moved =>
    refine ⟨coupled.sound.step moved,coupled.known.step (fun reason equal _ => ?_) moved,linked⟩
    obtain rfl := Runner.Action.request.inj equal
    decide
  | runner action runner published inside moved =>
    exact ⟨coupled.sound.step moved,
      coupled.known.step (fun reason equal => absurd equal (inside reason)) moved,linked⟩
  | _ => exact ⟨coupled.sound,coupled.known,linked⟩

/-- The watcher is told of the signal while the runner is published, and the runner
does not collect its results between that moment and the cancellation of the run. -/
def Timely (s : State) : Action → Prop
  | .poll => s.signal.isSome → s.service = .running
  | .runner (.collect _ _) => s.watcher ≠ .observed ∧ s.watcher ≠ .holding
  | _ => True

instance Service.decidableRunning (service : Service) : Decidable (service = .running) :=
  match service with
  | .running => .isTrue rfl
  | .entering | .reporting _ | .throwing | .returned _ | .threw => .isFalse nofun

instance Timely.decidable (s : State) (action : Action) : Decidable (Timely s action) := by
  unfold Timely
  split <;> infer_instance

/-- The run is still open. -/
def Open (runner : Runner.State) : Prop :=
  ∀ run, runner.main ≠ .closing run ∧ runner.main ≠ .returned run

/-- A signal that was seen: on its way to the runner, arrived there, or of no use as
the run has thrown. -/
inductive Heard (s : State) : Prop where
  | underway (watcher : s.watcher = .observed ∨ s.watcher = .holding)
      (published : s.service = .running) (unclosed : Open s.runner)
  | arrived (cancelled : s.runner.runCancellation ≠ none) (marked : Runner.Marked s.runner)
  | pointless (escape : Runner.Escape) (threw : s.runner.main = .threw escape)

/-- Only collecting results closes a run. -/
theorem open_step {runner moved : Runner.State} {action : Runner.Action} (unclosed : Open runner)
    (other : ∀ finishedAt duration, action ≠ .collect finishedAt duration)
    (taken : Runner.step plan action runner = some moved) : Open moved := by
  cases Runner.step_move taken with
  | main action main move =>
    intro run
    cases move with
    | collect finishedAt duration here => exact absurd rfl (other finishedAt duration)
    | close run here => exact absurd here (unclosed run).1
    | startInline here single => unfold Runner.inlineFrom; split <;> simp
    | advance j here done => unfold Runner.inlineFrom; split <;> simp
    | await j here done => unfold Runner.drainFrom; split <;> simp
    | _ => simp
  | submit j here => intro run; dsimp only; split <;> simp
  | task i action phase effect move => simpa [Open,Runner.State.setPhase] using unclosed
  | _ => exact unclosed

theorem Heard.step (coupled : Coupled plan s) (heard : Heard s) (timely : Timely s action)
    (taken : Interrupt.step plan action s = some next) : Heard next := by
  have runnerStep {action : Runner.Action} {runner : Runner.State}
      (taken : Runner.step plan action s.runner = some runner)
      (cancelled : s.runner.runCancellation ≠ none) (marked : Runner.Marked s.runner) :
      runner.runCancellation ≠ none ∧ Runner.Marked runner :=
    ⟨Runner.step_runCancellation taken cancelled,marked.step coupled.known cancelled taken⟩
  cases heard with
  | pointless escape threw =>
    cases step_move taken with
    | request runner here published moved => exact .pointless escape ((main_terminal (.inr ⟨escape,threw⟩) moved).trans threw)
    | runner action runner published inside moved =>
      exact .pointless escape ((main_terminal (.inr ⟨escape,threw⟩) moved).trans threw)
    | _ => exact .pointless escape threw
  | arrived cancelled marked =>
    cases step_move taken with
    | request runner here published moved =>
      obtain ⟨cancelled,marked⟩ := runnerStep moved cancelled marked
      exact .arrived cancelled marked
    | runner action runner published inside moved =>
      obtain ⟨cancelled,marked⟩ := runnerStep moved cancelled marked
      exact .arrived cancelled marked
    | _ => exact .arrived cancelled marked
  | underway watcher published unclosed =>
    have linked := coupled.linked
    cases step_move taken with
    | deliver signal => exact .underway watcher published unclosed
    | look here => simp [here] at watcher
    | poll here => simp [here] at watcher
    | acquire here => exact .underway (.inr rfl) published unclosed
    | request runner here _ moved =>
      have main := request_main cancellationReason moved
      obtain rfl := Option.some.inj moved
      exact .arrived (Runner.cancel_ne_none _ _) fun run ending =>
        absurd ending (not_or.mpr (unclosed run))
    | tooEarlyOrLate here hidden => simp [published,Service.published] at hidden
    | release here => simp [here] at watcher
    | publish here => simp [published] at here
    | runner action runner _ inside moved =>
      refine .underway watcher published (open_step unclosed (fun finishedAt duration => ?_) moved)
      rintro rfl
      exact watcher.elim timely.1 timely.2
    | write run here returned => exact absurd returned (unclosed run).2
    | writerThrows run here => simp [published] at here
    | unwind escape here threw => exact .pointless escape threw
    | retire run here => simp [published] at here
    | retireThrowing here => simp [published] at here
    | finish run here serving => simp [published] at here
    | join run here =>
      unfold Linked at linked
      simp [published,here] at linked

/-- A watcher that sees the signal before every selected test is over: under steps that
`permits` allows from there on, the run source is cancelled before the run returns, and
the command does not exit with 0. -/
def SignalHeard (plan : Runner.Plan) (permits : State → Action → Prop) : Prop :=
  ∀ labels more s next final, Transition.run (step plan) labels initial = some s →
    s.signal.isSome = true → (∃ i < plan.size, (s.runner.tasks i).over = false) →
    step plan .poll s = some next → Transition.Along (step plan) permits (.poll :: more) s →
    Transition.run (step plan) more next = some final →
    (∀ run, final.runner.main = .returned run → final.runner.runCancellation ≠ none) ∧
      ∀ code, final.command = .exited code → code ≠ 0

theorem signalHeard (plan : Runner.Plan) : SignalHeard plan Timely := by
  rintro labels more s next final path signalled ⟨i,selected,unfinished⟩ taken along onward
  have coupled := Transition.run_invariant (step plan) (Coupled plan)
    (fun _ _ _ coupled taken => coupled.step taken) labels initial s path (.initial plan)
  have unclosed : Open s.runner := by
    have stage := coupled.sound.control.stage
    intro run
    constructor <;> intro here <;> rw [here] at stage <;>
      exact absurd (stage.2 i selected) (by simp [unfinished])
  have seen : Heard next := by
    cases step_move taken with
    | poll here => exact .underway (.inl (if_pos signalled)) (along.1 signalled) unclosed
  have ends := Transition.run_invariant_along (step plan) Timely
    (fun s => Coupled plan s ∧ Heard s)
    (fun _ _ _ held timely taken => ⟨held.1.step taken,held.2.step held.1 timely taken⟩)
    more next final (along.2 next taken) onward ⟨coupled.step taken,seen⟩
  obtain ⟨coupledEnd,heard⟩ := ends
  have closed (run : TestRun) (returned : final.runner.main = .returned run) :
      final.runner.runCancellation ≠ none ∧ run.cancellationReason ≠ [] := by
    cases heard with
    | underway watcher published unclosed => exact absurd returned (unclosed run).2
    | arrived cancelled marked => exact ⟨cancelled,marked run (.inr returned)⟩
    | pointless escape threw => simp [returned] at threw
  refine ⟨fun run returned => (closed run returned).1,fun code exited => ?_⟩
  have linked := coupledEnd.linked
  unfold Linked at linked
  cases service : final.service <;> simp only [service,exited] at linked
  next run =>
    obtain ⟨returned,signal,rfl⟩ := linked
    exact exitStatus_ne_zero signal run (run.exitCode_of_cancelled (closed run returned).2)

def exitCode (s : State) : Option Nat :=
  match s.command with
  | .exited code => some code
  | _ => none

theorem exited_of_exitCode {s : State} {code : Nat} (found : exitCode s = some code) :
    s.command = .exited code := by
  unfold exitCode at found
  split at found
  next here => rw [here,Option.some.inj found]
  next => contradiction

/-- The signal arrives while the body of the one test is running. -/
def runningTest : List Action :=
  [.publish,.runner (.start none),.runner .call,.runner (.task 0 .begin),
    .runner (.task 0 (.observerStarted none)),.runner (.task 0 (.enter {})),
    .runner (.task 0 (.create .made {})),.runner (.task 0 .register),.runner (.task 0 (.check {})),
    .runner (.task 0 .startBody),.deliver .interrupt,.look]

/-- The watcher's call cancels the attempt, and the run it belongs to ends. -/
def stoppedRun : List Action :=
  [.acquire,.request,.runner (.lock 0),.runner .signalNext,.runner .unlock,.release,
    .runner (.task 0 (.bodyEnds { outcome := .returned })),.runner (.task 0 (.verdict {})),
    .runner (.task 0 .leave),.runner (.task 0 .conclude),.runner (.task 0 (.record .null)),
    .runner (.task 0 (.observerFinished none)),.runner .advance,.runner (.collect 0 0),
    .runner (.close none),.write,.retire,.finish,.join]

theorem signalHeard_stoppedRun : ∃ s next final,
    Transition.run (step Runner.oneTest) runningTest initial = some s ∧
    step Runner.oneTest .poll s = some next ∧
    Transition.Along (step Runner.oneTest) Timely (.poll :: stoppedRun) s ∧
    Transition.run (step Runner.oneTest) stoppedRun next = some final ∧
    (∃ run, final.runner.main = .returned run ∧ final.runner.runCancellation ≠ none) ∧
    final.command = .exited 130 := by
  obtain ⟨s,path,signalled,unfinished,timely,onward⟩ : ∃ s,
      Transition.run (step Runner.oneTest) runningTest initial = some s ∧
      s.signal.isSome = true ∧ (s.runner.tasks 0).over = false ∧
      Transition.Along (step Runner.oneTest) Timely (.poll :: stoppedRun) s ∧
      ((step Runner.oneTest .poll s).bind (Transition.run (step Runner.oneTest) stoppedRun)).bind
        (fun final => (Runner.returnedRun final.runner).bind fun _ => exitCode final) = some 130 :=
    ⟨_,rfl,rfl,rfl,by decide +kernel,by decide +kernel⟩
  obtain ⟨final,polled,code⟩ := Option.bind_eq_some_iff.mp onward
  obtain ⟨next,taken,after⟩ := Option.bind_eq_some_iff.mp polled
  obtain ⟨run,returned,exited⟩ := Option.bind_eq_some_iff.mp code
  have heard := signalHeard Runner.oneTest runningTest stoppedRun s next final path signalled
    ⟨0,by decide,unfinished⟩ taken timely after
  exact ⟨s,next,final,path,taken,timely,after,
    ⟨run,Runner.returnedRun_some returned,heard.1 run (Runner.returnedRun_some returned)⟩,
    exited_of_exitCode exited⟩

/-- The signal arrives before the watcher's first look. -/
def earlySignal : List Action := [.deliver .interrupt,.look]

/-- The watcher is through before the runner is published; the one test then passes. -/
def unheardRun : List Action :=
  [.acquire,.request,.publish,.runner (.start none),.runner .call,.runner (.task 0 .begin),
    .runner (.task 0 (.observerStarted none)),.runner (.task 0 (.enter {})),
    .runner (.task 0 (.create .made {})),.runner (.task 0 .register),.runner (.task 0 (.check {})),
    .runner (.task 0 .startBody),.runner (.task 0 (.bodyEnds { outcome := .returned })),
    .runner (.task 0 (.verdict {})),.runner (.task 0 .leave),.runner (.task 0 .conclude),
    .runner (.task 0 (.record .null)),.runner (.task 0 (.observerFinished none)),.runner .advance,
    .runner (.collect 0 0),.runner (.close none),.write,.retire,.finish,.join]

theorem earlySignal_swallowed : ¬SignalHeard Runner.oneTest fun _ _ => True := by
  intro heard
  have ends : (Transition.run (step Runner.oneTest) unheardRun
      { initial with signal := some .interrupt, watcher := .observed }).bind exitCode = some 0 := by
    decide +kernel
  obtain ⟨final,path,zero⟩ := Option.bind_eq_some_iff.mp ends
  have exited := exited_of_exitCode zero
  exact (heard earlySignal unheardRun _ _ final rfl rfl ⟨0,by decide,rfl⟩ rfl
    (Transition.along_of_forall _ _ _ _ fun _ _ _ => trivial) path).2 0 exited rfl

end TestForge.Interrupt
