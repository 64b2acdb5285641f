import TestForge.RunnerCancellation

/-! What the exit code of a run says after a cancellation. -/
namespace TestForge.Runner

open Json Strings

variable {plan : Plan} {s next : State} {i : Nat}

/-- A request that comes first gives a reason. -/
def Reasoned (s : State) (action : Action) : Prop :=
  ∀ reason, action = .request reason → s.runCancellation = none → reason ≠ []

def ReasonKnown (s : State) : Prop := ∀ reason, s.runCancellation = some reason → reason ≠ []

theorem failFastReason_ne_nil (result : TestResult) : failFastReason result ≠ [] := by
  simp [failFastReason,ascii]

/-- The run source keeps its reason, or takes the new one when it has none. -/
theorem reasonKnown_cancel (source : Option Bytes) (reason : Bytes)
    (known : ∀ earlier, source = some earlier → earlier ≠ []) (fresh : source = none → reason ≠ []) :
    ∀ current, cancel source reason = some current → current ≠ [] := by
  intro current equal
  obtain rfl := Option.some.inj equal
  cases source with
  | none => exact fresh rfl
  | some earlier => exact known earlier rfl

theorem ReasonKnown.step (known : ReasonKnown s) {action : Action} (reasoned : Reasoned s action)
    (taken : Runner.step plan action s = some next) : ReasonKnown next := by
  cases step_move taken with
  | request reason => exact reasonKnown_cancel _ _ known (reasoned reason rfl)
  | task i action phase effect move =>
    show ∀ reason, (s.apply i effect).runCancellation = some reason → reason ≠ []
    cases effect with
    | cancelRun reason =>
      refine reasonKnown_cancel _ _ known fun _ => ?_
      generalize s.tasks i = source at move
      cases move
      exact failFastReason_ne_nil _
    | _ => exact known
  | _ => exact known

/-- A run record closed after the cancellation names a reason. -/
def Marked (s : State) : Prop :=
  ∀ run, s.main = .closing run ∨ s.main = .returned run → run.cancellationReason ≠ []

theorem Marked.step (known : ReasonKnown s)
    (cancelled : s.runCancellation ≠ none) (marked : Marked s) {action : Action}
    (taken : Runner.step plan action s = some next) : Marked next := by
  intro run ending
  rcases ending_of_step taken run ending with ⟨finishedAt,duration,rfl,-⟩ | earlier
  · obtain ⟨reason,found⟩ := Option.ne_none_iff_exists'.mp cancelled
    show s.runCancellation.getD [] ≠ []
    rw [found]
    exact known reason found
  · exact marked run earlier

theorem not_over_of_before (phase : Phase) (k : Nat) (before : phase.before k) :
    phase.over = false := by
  cases phase <;> first | rfl | exact absurd before (by simp [Phase.before])

/-- Whoever cancels the run while the first body of some selected test has not been
started, under steps that `permits` allows: the run does not exit with 0, not even
after a round trip through its JSON form. -/
def InterruptionShows (plan : Plan) (permits : State → Action → Prop) : Prop :=
  ∀ labels more s final run i,
    Transition.Along (step plan) permits (labels ++ more) initial →
    Transition.run (step plan) labels initial = some s →
    i < plan.size → (s.tasks i).before 1 → s.runCancellation ≠ none →
    Transition.run (step plan) more s = some final → final.main = .returned run →
    run.exitCode ≠ 0 ∧ (TestRun.fromJson run.toJson).exitCode ≠ 0

theorem interruptionShows (plan : Plan) : InterruptionShows plan Reasoned := by
  intro labels more s final run i along path selected unstarted cancelled onward returned
  obtain ⟨before,after⟩ := Transition.along_append (step plan) Reasoned labels more initial s path along
  have sound := (Sound.initial plan).run labels path
  have known := Transition.run_invariant_along (step plan) Reasoned ReasonKnown
    (fun _ _ _ known reasoned taken => known.step reasoned taken) labels initial s before path
    (fun reason impossible => by contradiction)
  have opened : Marked s := by
    intro run ending
    have stage := sound.control.stage
    have past : (s.tasks i).over = true := by
      rcases ending with here | here <;> rw [here] at stage <;> exact stage.2 i selected
    simp [not_over_of_before _ 1 unstarted] at past
  have final := Transition.run_invariant_along (step plan) Reasoned
    (fun s => (ReasonKnown s ∧ s.runCancellation ≠ none) ∧ Marked s)
    (fun action s next held reasoned taken =>
      ⟨⟨held.1.1.step reasoned taken,step_runCancellation taken held.1.2⟩,
        held.2.step held.1.1 held.1.2 taken⟩)
    more s final after onward ⟨⟨known,cancelled⟩,opened⟩
  have nonzero := run.exitCode_of_cancelled (final.2 run (.inr returned))
  exact ⟨nonzero,by rwa [TestRun.exitCode_roundTrip]⟩

/-- One test of the sequential path that finds the run cancelled at its check. -/
def oneTest : Plan where
  selected := [{ name := ascii "a" }]
  distinct := by decide

def refusedRun : List Action :=
  [.start none,.call,.task 0 .begin,.task 0 (.observerStarted none),.task 0 (.enter {}),
    .task 0 (.create .made {}),.task 0 .register,.task 0 (.check {}),.task 0 .leave,
    .task 0 .conclude,.task 0 (.record .null),.task 0 (.observerFinished none),.advance,
    .collect 0 0,.close none]

def returnedRun (s : State) : Option TestRun :=
  match s.main with
  | .returned run => some run
  | _ => none

theorem returnedRun_some {s : State} {run : TestRun} (found : returnedRun s = some run) :
    s.main = .returned run := by
  unfold returnedRun at found
  split at found
  next here => rw [here,Option.some.inj found]
  next => contradiction

theorem emptyReason_exits_zero : ¬InterruptionShows oneTest fun _ _ => True := by
  intro shows
  have ends : ((Transition.run (step oneTest) refusedRun
      { initial with runCancellation := some [], requests := [[]] }).bind returnedRun).map
        (·.exitCode) = some 0 := by
    decide +kernel
  obtain ⟨run,found,zero⟩ := Option.map_eq_some_iff.mp ends
  obtain ⟨final,path,found⟩ := Option.bind_eq_some_iff.mp found
  exact (shows [.request []] refusedRun _ final run 0
    (Transition.along_of_forall _ _ _ _ fun _ _ _ => trivial) rfl (by decide) trivial (by decide) path
    (returnedRun_some found)).1 zero

theorem interruptionShows_oneTest : ∃ final run,
    Transition.run (step oneTest) (.request (ascii "stop") :: refusedRun) initial = some final ∧
      final.main = .returned run ∧ run.exitCode ≠ 0 := by
  have ends : ((Transition.run (step oneTest) refusedRun
      { initial with runCancellation := some (ascii "stop"), requests := [ascii "stop"] }).bind
        returnedRun).isSome = true := by
    decide
  obtain ⟨run,found⟩ := Option.isSome_iff_exists.mp ends
  obtain ⟨final,path,found⟩ := Option.bind_eq_some_iff.mp found
  refine ⟨final,run,(Transition.run_cons_some _ _ _ _ _).mpr ⟨_,rfl,path⟩,returnedRun_some found,
    (interruptionShows oneTest [.request (ascii "stop")] refusedRun _ final run 0
      (Transition.along_of_forall _ _ _ _ fun s action member reason equal _ => ?_) rfl
      (by decide) trivial (by decide) path (returnedRun_some found)).1⟩
  subst equal
  obtain rfl : reason = ascii "stop" := by simpa [refusedRun] using member
  decide

end TestForge.Runner
