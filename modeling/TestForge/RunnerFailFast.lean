import TestForge.RunnerProgress

/-! Which executing bodies a fail-fast trip reaches. -/
namespace TestForge.Runner

open Json Strings

variable {plan : Plan} {s next : State} {i : Nat} {action : TaskAction} {source phase : Phase}
  {effect : Effect}

/-- Only a bounded body is polled for, and only an unbounded one runs inline. -/
def Phase.Watched (bounded : Bool) : Phase → Prop
  | .running _ .inline => bounded = false
  | .running _ .polling => bounded = true
  | _ => True

theorem TaskMove.watched (move : TaskMove plan s i source action phase effect)
    (watched : source.Watched (plan.bounded i)) : phase.Watched (plan.bounded i) := by
  cases move with
  | startBody k =>
    split
    next bounded => exact bounded
    next unbounded => exact Bool.eq_false_iff.mpr unbounded
  | forward k reason cancelled fresh => exact watched
  | _ => trivial

structure FailFast (plan : Plan) (s : State) : Prop where
  watched : ∀ i, (s.tasks i).Watched (plan.bounded i)
  tripped : s.stopScheduling = true →
    s.runCancellation ≠ none ∨ ∃ i result, s.tasks i = .signalling result

/-- What a trip leaves to be done stays to be done until the run source is cancelled. -/
theorem TaskMove.tripped (move : TaskMove plan s i (s.tasks i) action phase effect)
    (tripped : s.stopScheduling = true →
      s.runCancellation ≠ none ∨ ∃ i result, s.tasks i = .signalling result)
    (stopped : (s.apply i effect).stopScheduling = true) :
    (s.apply i effect).runCancellation ≠ none ∨
      ∃ j result, Function.update s.tasks i phase j = .signalling result := by
  have kept (going : s.stopScheduling = true) (still : ∀ result, s.tasks i ≠ .signalling result) :
      (s.apply i effect).runCancellation ≠ none ∨
        ∃ j result, Function.update s.tasks i phase j = .signalling result := by
    rcases tripped going with cancelled | ⟨j,result,signalling⟩
    · exact .inl (s.apply_runCancellation i effect cancelled)
    · have different : j ≠ i := fun equal => still result (equal ▸ signalling)
      exact .inr ⟨j,result,(Function.update_of_ne different _ _).trans signalling⟩
  generalize here : s.tasks i = source at move kept
  cases move with
  | trip result => exact .inr ⟨i,result,Function.update_self _ _ _⟩
  | signal result => exact .inl (cancel_ne_none _ _)
  | _ => exact kept stopped (by simp)

theorem FailFast.taken (failFast : FailFast plan s) (waits : s.tasks i = .waiting)
    (tasks : next.tasks = Function.update s.tasks i .taken)
    (stop : next.stopScheduling = s.stopScheduling)
    (cancellation : next.runCancellation = s.runCancellation) : FailFast plan next := by
  refine ⟨fun j => ?_,fun stopped => ?_⟩
  · rw [tasks]
    by_cases mine : j = i
    · subst mine
      rw [Function.update_self]
      trivial
    · rw [Function.update_of_ne mine]
      exact failFast.watched j
  · rw [cancellation]
    refine (failFast.tripped (stop ▸ stopped)).imp_right fun ⟨j,result,signalling⟩ => ?_
    have different : j ≠ i := fun equal => by simp [equal,waits] at signalling
    exact ⟨j,result,by rw [tasks,Function.update_of_ne different,signalling]⟩

theorem FailFast.step (control : Control plan s) (failFast : FailFast plan s) {action : Action}
    (taken : Runner.step plan action s = some next) : FailFast plan next := by
  cases step_move taken with
  | task i action phase effect move =>
    refine ⟨fun j => ?_,fun stopped => ?_⟩
    · rw [State.setPhase_tasks,State.apply_tasks]
      by_cases mine : j = i
      · subst mine
        rw [Function.update_self]
        exact move.watched (failFast.watched j)
      · rw [Function.update_of_ne mine]
        exact failFast.watched j
    · have onward := move.tripped failFast.tripped stopped
      simpa [State.setPhase] using onward
  | take worker i rest queued free =>
    exact failFast.taken (control.queued i (by simp [queued])).2 rfl rfl rfl
  | call j here waiting => exact failFast.taken waiting rfl rfl rfl
  | request reason => exact ⟨failFast.watched,fun _ => .inl (cancel_ne_none _ _)⟩
  | main action main move => exact ⟨failFast.watched,failFast.tripped⟩
  | submit j here => exact ⟨failFast.watched,failFast.tripped⟩
  | orphanEnds attempt astray => exact ⟨failFast.watched,failFast.tripped⟩
  | lock call reason free pending => exact ⟨failFast.watched,failFast.tripped⟩
  | signalNext reason attempt rest sweeping => exact ⟨failFast.watched,failFast.tripped⟩
  | unlock reason sweeping => exact ⟨failFast.watched,failFast.tripped⟩

/-- What runner and observers do by themselves: nobody asks for a cancellation, no
body comes to an end, and no deadline passes. -/
def OwnStep (_ : State) : Action → Prop
  | .request _ => False
  | .orphanEnds _ => False
  | .task _ (.bodyEnds _) => False
  | .task _ .deadline => False
  | _ => True

theorem OwnStep.unprompted (s : State) (action : Action) (own : OwnStep s action) :
    Unprompted s action := by
  rintro reason rfl
  exact own

/-- However the run goes on without a further request: once the runner has nothing
left to do by itself, the token of the attempt is cancelled if its body still executes. -/
def ReachedByRunner (plan : Plan) (s : State) (attempt : Attempt) : Prop :=
  ∀ labels final, Transition.Along (step plan) Unprompted labels s →
    Transition.run (step plan) labels s = some final → Transition.Settled (step plan) OwnStep final →
    Executing final attempt → final.sources attempt ≠ none

theorem settled_calls (settled : Transition.Settled (step plan) OwnStep s) :
    s.sweep = none ∧ s.requests = [] := by
  have free : s.sweep = none := by
    cases sweeping : s.sweep with
    | none => rfl
    | some sweep =>
      obtain ⟨reason,remaining⟩ := sweep
      cases remaining with
      | nil => simpa [step,sweeping] using settled .unlock trivial
      | cons attempt rest => simpa [step,sweeping] using settled .signalNext trivial
  refine ⟨free,?_⟩
  cases pending : s.requests with
  | nil => rfl
  | cons reason rest => simpa [step,free,pending] using settled (.lock 0) trivial

/-- A settled runner whose fail-fast has tripped has cancelled the run source. -/
theorem settled_cancelled (failFast : FailFast plan s) (tripped : s.stopScheduling = true)
    (settled : Transition.Settled (step plan) OwnStep s) : s.runCancellation ≠ none := by
  rcases failFast.tripped tripped with cancelled | ⟨i,result,signalling⟩
  · exact cancelled
  · simpa [step,taskStep,signalling] using settled (.task i .signal) trivial

theorem settled_forwarded (settled : Transition.Settled (step plan) OwnStep s) (k : Nat)
    (polling : s.tasks i = .running k .polling) (cancelled : s.runCancellation ≠ none) :
    s.sources ⟨i,k⟩ ≠ none := by
  intro fresh
  obtain ⟨reason,known⟩ := Option.ne_none_iff_exists'.mp cancelled
  simpa [step,taskStep,polling,forwarded,known,fresh] using settled (.task i .forward) trivial

/-- The calls of `requestCancellation` that got as far as the run source. -/
def calls (s : State) : Nat := s.requests.length + s.sweep.toList.length + s.completed

theorem step_calls {action : Action} (taken : step plan action s = some next)
    (made : 0 < calls s) : 0 < calls next := by
  unfold calls at made ⊢
  cases step_move taken with
  | task i action phase effect move => simpa [State.setPhase] using made
  | request reason => simp
  | lock call reason free pending => simp
  | signalNext reason attempt rest sweeping => simp
  | unlock reason sweeping => simp
  | _ => exact made

theorem step_sources {action : Action} (taken : step plan action s = some next) (attempt : Attempt)
    (cancelled : s.sources attempt ≠ none) : next.sources attempt ≠ none := by
  cases step_move taken with
  | task i action phase effect move => exact s.apply_sources i effect attempt cancelled
  | signalNext reason other rest sweeping => exact s.cancelSource_sources other attempt reason cancelled
  | _ => exact cancelled

theorem step_stopScheduling {action : Action} (taken : step plan action s = some next)
    (stopped : s.stopScheduling = true) : next.stopScheduling = true := by
  cases step_move taken with
  | task i action phase effect move => cases effect <;> first | exact stopped | rfl
  | _ => exact stopped

/-- An inline body whose token nobody is about to cancel. -/
structure Unheard (s : State) (attempt : Attempt) : Prop where
  running : s.tasks attempt.test = .running attempt.number .inline
  fresh : s.sources attempt = none
  requests : s.requests = []
  sweep : s.sweep = none

theorem Unheard.step (control : Control plan s) (attempt : Attempt) (unheard : Unheard s attempt)
    {action : Action} (own : OwnStep s action) (taken : Runner.step plan action s = some next) :
    Unheard next attempt := by
  have awake (i : Nat) (waits : s.tasks i = .waiting) : attempt.test ≠ i := fun equal => by
    simp [← equal,unheard.running] at waits
  cases step_move taken with
  | task i action phase effect move =>
    have different : attempt.test ≠ i := by
      rintro rfl
      rw [unheard.running] at move
      cases move
      exact own
    refine ⟨?_,?_,by simpa [State.setPhase] using unheard.requests,
      by simpa [State.setPhase] using unheard.sweep⟩
    · rw [State.setPhase_tasks,Function.update_of_ne different,State.apply_tasks,unheard.running]
    · exact (apply_sources_other s i attempt.test attempt.number different move).trans unheard.fresh
  | take worker i rest queued free =>
    have away := awake i (control.queued i (by simp [queued])).2
    exact ⟨(Function.update_of_ne away _ _).trans unheard.running,unheard.fresh,unheard.requests,
      unheard.sweep⟩
  | call j here waits =>
    exact ⟨(Function.update_of_ne (awake j waits) _ _).trans unheard.running,unheard.fresh,
      unheard.requests,unheard.sweep⟩
  | request reason => exact absurd own id
  | lock call reason free pending => simp [unheard.requests] at pending
  | signalNext reason other rest sweeping => simp [unheard.sweep] at sweeping
  | unlock reason sweeping => simp [unheard.sweep] at sweeping
  | main action main move => exact ⟨unheard.running,unheard.fresh,unheard.requests,unheard.sweep⟩
  | submit j here => exact ⟨unheard.running,unheard.fresh,unheard.requests,unheard.sweep⟩
  | orphanEnds other astray => exact absurd own id

theorem Unheard.unreached (sound : Sound plan s) (attempt : Attempt) (unheard : Unheard s attempt) :
    ¬ReachedByRunner plan s attempt := by
  intro reached
  obtain ⟨labels,final,along,path,settled⟩ := Transition.exists_settled (Runner.step plan) OwnStep
    (Sound plan) (weight plan) (fun _ _ _ sound _ taken => sound.step taken)
    (fun action s _ sound own taken => step_lowers sound (OwnStep.unprompted s action own) taken) s sound
  have still := (Transition.run_invariant_along (Runner.step plan) OwnStep
    (fun s => Sound plan s ∧ Unheard s attempt)
    (fun _ _ _ held own taken => ⟨held.1.step taken,held.2.step held.1.control attempt own taken⟩)
    labels s final along path ⟨sound,unheard⟩).2
  exact reached labels final (along.mono OwnStep.unprompted labels s) path settled
    (.inl ⟨_,still.running⟩) still.fresh

theorem FailFast.of_run (labels : List Action) (path : Transition.run (Runner.step plan) labels initial = some s) :
    FailFast plan s :=
  (Transition.run_invariant (Runner.step plan) (fun s => Control plan s ∧ FailFast plan s)
    (fun _ _ _ held taken => ⟨held.1.step taken,held.2.step held.1 taken⟩) labels initial s path
    ⟨.initial plan,fun _ => trivial,fun impossible => by contradiction⟩).2

theorem FailFast.run (control : Control plan s) (failFast : FailFast plan s) (tripped : s.stopScheduling = true)
    (more : List Action) (onward : Transition.run (Runner.step plan) more s = some next) :
    FailFast plan next ∧ next.stopScheduling = true := by
  have held := Transition.run_invariant (Runner.step plan)
    (fun s => (Control plan s ∧ FailFast plan s) ∧ s.stopScheduling = true)
    (fun _ _ _ held taken => ⟨⟨held.1.1.step taken,held.1.2.step held.1.1 taken⟩,
      step_stopScheduling taken held.2⟩) more s next onward ⟨⟨control,failFast⟩,tripped⟩
  exact ⟨held.1.2,held.2⟩

/-- A body that the runner reaches by itself has a timeout, has been told or will be. -/
theorem FailFast.heard (sound : Sound plan s) (signalled : Signalled s) (failFast : FailFast plan s)
    (attempt : Attempt) (executing : Executing s attempt) (reached : ReachedByRunner plan s attempt) :
    plan.bounded attempt.test = true ∨ s.sources attempt ≠ none ∨ s.requests ≠ [] ∨ s.sweep ≠ none := by
  by_contra unheard
  simp only [not_or,not_not,Bool.not_eq_true] at unheard
  obtain ⟨unbounded,fresh,requests,sweep⟩ := unheard
  rcases executing with ⟨watch,running⟩ | astray
  · have watched := failFast.watched attempt.test
    rw [running] at watched
    cases watch with
    | inline =>
      exact Unheard.unreached sound attempt ⟨running,fresh,requests,sweep⟩ reached
    | polling => simp [Phase.Watched,unbounded] at watched
    | grace => exact signalled.expired attempt running fresh
  · exact signalled.astray attempt astray fresh

/-- Once nothing of the runner is under way, a body with a timeout has been told. -/
theorem FailFast.settled_bounded (signalled : Signalled s) (failFast : FailFast plan s)
    (tripped : s.stopScheduling = true) (settled : Transition.Settled (Runner.step plan) OwnStep s)
    (attempt : Attempt) (still : Executing s attempt) (bounded : plan.bounded attempt.test = true) :
    s.sources attempt ≠ none := by
  rcases still with ⟨watch,running⟩ | astray
  · have watched := failFast.watched attempt.test
    rw [running] at watched
    cases watch with
    | inline => simp [Phase.Watched,bounded] at watched
    | polling =>
      exact settled_forwarded settled attempt.number running (settled_cancelled failFast tripped settled)
    | grace => exact signalled.expired attempt running
  · exact signalled.astray attempt astray

/-- And so has every body that a call under way was to tell. -/
theorem Signalled.settled_called (signalled : Signalled next) (under : 0 < calls s) (more : List Action)
    (onward : Transition.run (Runner.step plan) more s = some next)
    (settled : Transition.Settled (Runner.step plan) OwnStep next) (attempt : Attempt)
    (still : Executing next attempt) : next.sources attempt ≠ none := by
  obtain ⟨free,none⟩ := settled_calls settled
  have made := Transition.run_invariant (Runner.step plan) (fun s => 0 < calls s)
    (fun _ _ _ made taken => step_calls taken made) more s next onward under
  have returned : 0 < next.completed := by simpa [calls,free,none] using made
  rcases still with ⟨watch,running⟩ | astray
  · exact signalled.reached returned attempt (by rw [running]; rfl)
  · exact signalled.astray attempt astray

/-- Once fail-fast has tripped, the runner cancels the token of an executing body by
itself exactly for the bodies with a timeout, those already told, and those a call of
`requestCancellation` that is under way will tell. -/
theorem failFast_reaches_iff (plan : Plan) (labels : List Action) (s : State)
    (path : Transition.run (step plan) labels initial = some s) (tripped : s.stopScheduling = true)
    (attempt : Attempt) (executing : Executing s attempt) :
    ReachedByRunner plan s attempt ↔
      plan.bounded attempt.test = true ∨ s.sources attempt ≠ none ∨ s.requests ≠ [] ∨ s.sweep ≠ none := by
  have sound := (Sound.initial plan).run labels path
  have signalled := Signalled.initial.run (Sound.initial plan) labels path
  have failFast := FailFast.of_run labels path
  constructor
  · exact failFast.heard sound signalled attempt executing
  · intro heard more final along onward settled still
    have signalledFinal := signalled.run sound more onward
    obtain ⟨failFastFinal,trippedFinal⟩ := failFast.run sound.control tripped more onward
    rcases heard with bounded | cancelled | requests | sweep
    · exact failFastFinal.settled_bounded signalledFinal trippedFinal settled attempt still bounded
    · exact Transition.run_invariant (step plan) (fun s => s.sources attempt ≠ Option.none)
        (fun _ _ _ cancelled taken => step_sources taken attempt cancelled) more s final onward cancelled
    · have under : 0 < calls s := by
        have some := List.length_pos_iff.mpr requests
        unfold calls
        omega
      exact signalledFinal.settled_called under more onward settled attempt still
    · have under : 0 < calls s := by
        obtain ⟨held,sweeping⟩ := Option.ne_none_iff_exists'.mp sweep
        simp [calls,sweeping]
      exact signalledFinal.settled_called under more onward settled attempt still

/-- Two tests on two workers under fail-fast, all with the given timeout. -/
def failFastTests (timeoutMs : Int) : Plan :=
  { twoTests with
    options := { workers := 2, failFast := true }, config := { defaultTimeoutMs := timeoutMs } }

/-- The second test is executing when the first one fails and trips fail-fast. -/
def trippedRun : List Action :=
  [.start none,.submit,.submit,.take 0,.take 1,.task 1 .begin,.task 1 (.observerStarted none),
    .task 1 (.enter {}),.task 1 (.create .made {}),.task 1 .register,.task 1 (.check {}),
    .task 1 .startBody,.task 0 .begin,.task 0 (.observerStarted none),.task 0 (.enter {}),
    .task 0 (.create .made {}),.task 0 .register,.task 0 (.check {}),.task 0 .startBody,
    .task 0 (.bodyEnds brokenBody),.task 0 (.verdict {}),.task 0 .leave,.task 0 .conclude,
    .task 0 (.record .null),.task 0 (.observerFinished none),.task 0 .trip,.task 0 .signal]

theorem inlineBody_unreached : ∃ labels s, Transition.run (step (failFastTests 0)) labels initial = some s ∧
    s.stopScheduling = true ∧ s.runCancellation ≠ none ∧ Executing s ⟨1,1⟩ ∧
      ¬ReachedByRunner (failFastTests 0) s ⟨1,1⟩ := by
  have ends : (Transition.run (step (failFastTests 0)) trippedRun initial).isSome = true := by
    decide
  obtain ⟨s,path⟩ := Option.isSome_iff_exists.mp ends
  have seen : (Transition.run (step (failFastTests 0)) trippedRun initial).map (fun s =>
      s.stopScheduling && s.runCancellation.isSome && (s.sources ⟨1,1⟩).isNone &&
        s.requests.isEmpty && s.sweep.isNone) = some true := by
    decide
  have running : (Transition.run (step (failFastTests 0)) trippedRun initial).map (·.tasks 1) =
      some (.running 1 .inline) := rfl
  rw [path] at seen running
  simp only [Option.map_some,Option.some.injEq,Bool.and_eq_true,Option.isNone_iff_eq_none,
    List.isEmpty_iff] at seen running
  obtain ⟨⟨⟨⟨stopped,cancelled⟩,fresh⟩,requests⟩,sweep⟩ := seen
  have sound := (Sound.initial (failFastTests 0)).run trippedRun path
  exact ⟨trippedRun,s,path,stopped,Option.isSome_iff_ne_none.mp cancelled,.inl ⟨_,running⟩,
    Unheard.unreached sound ⟨1,1⟩ ⟨running,fresh,requests,sweep⟩⟩

theorem failFast_reaches_polled : ∃ s,
    Transition.run (step (failFastTests 1000)) trippedRun initial = some s ∧ Executing s ⟨1,1⟩ ∧
      s.sources ⟨1,1⟩ = none ∧ ReachedByRunner (failFastTests 1000) s ⟨1,1⟩ := by
  have ends : (Transition.run (step (failFastTests 1000)) trippedRun initial).isSome = true := by
    decide
  obtain ⟨s,path⟩ := Option.isSome_iff_exists.mp ends
  have seen : (Transition.run (step (failFastTests 1000)) trippedRun initial).map (fun s =>
      (s.stopScheduling,s.sources ⟨1,1⟩)) = some (true,none) := by
    decide
  have running : (Transition.run (step (failFastTests 1000)) trippedRun initial).map (·.tasks 1) =
      some (.running 1 .polling) := rfl
  rw [path] at seen running
  simp only [Option.map_some,Option.some.injEq,Prod.mk.injEq] at seen running
  exact ⟨s,path,.inl ⟨_,running⟩,seen.2,(failFast_reaches_iff (failFastTests 1000) trippedRun s path
    seen.1 ⟨1,1⟩ (.inl ⟨_,running⟩)).mpr (.inl (by decide))⟩

end TestForge.Runner
