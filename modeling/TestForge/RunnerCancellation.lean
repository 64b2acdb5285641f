import TestForge.RunnerRecords

/-! No test misses a cancellation: a source is registered before the run source is
checked, and the run source is cancelled before the registered ones are swept. -/
namespace TestForge.Runner

open Json Strings

variable {plan : Plan} {s next : State} {i : Nat} {action : TaskAction} {source phase : Phase}
  {effect : Effect}

/-- The attempt that has passed the check of the run source and whose body is not over. -/
def Phase.begun : Phase → Option Nat
  | .starting k => some k
  | .running k _ => some k
  | _ => none

@[simp] theorem cancel_ne_none (source : Option Bytes) (reason : Bytes) :
    cancel source reason ≠ none := by
  simp [cancel]

namespace State

theorem cancelSource_sources (s : State) (attempt other : Attempt) (reason : Bytes)
    (cancelled : s.sources other ≠ none) : (s.cancelSource attempt reason).sources other ≠ none := by
  show Function.update s.sources attempt _ other ≠ none
  by_cases equal : other = attempt
  · subst equal
    rw [Function.update_self]
    exact cancel_ne_none _ _
  · rwa [Function.update_of_ne equal]

theorem cancelSource_self (s : State) (attempt : Attempt) (reason : Bytes) :
    (s.cancelSource attempt reason).sources attempt ≠ none := by
  show Function.update s.sources attempt _ attempt ≠ none
  rw [Function.update_self]
  exact cancel_ne_none _ _

theorem apply_sources (s : State) (i : Nat) (effect : Effect) (attempt : Attempt)
    (cancelled : s.sources attempt ≠ none) : (s.apply i effect).sources attempt ≠ none := by
  cases effect with
  | cancel other reason => exact s.cancelSource_sources _ _ _ cancelled
  | _ => exact cancelled

theorem apply_runCancellation (s : State) (i : Nat) (effect : Effect)
    (cancelled : s.runCancellation ≠ none) : (s.apply i effect).runCancellation ≠ none := by
  cases effect with
  | cancelRun reason => exact cancel_ne_none _ _
  | _ => exact cancelled

end State

/-- Whatever happens, a cancelled run stays cancelled. -/
theorem step_runCancellation {action : Action} (taken : step plan action s = some next)
    (cancelled : s.runCancellation ≠ none) : next.runCancellation ≠ none := by
  cases step_move taken with
  | task i action phase effect move => exact s.apply_runCancellation i effect cancelled
  | request reason => exact cancel_ne_none _ _
  | _ => exact cancelled

theorem TaskMove.begun (move : TaskMove plan s i source action phase effect) (k : Nat)
    (begun : phase.begun = some k) : source.begun = some k ∨ s.runCancellation = none := by
  cases move with
  | passed m stamp running => exact .inr running
  | _ => first | exact .inl begun | contradiction

theorem TaskMove.grace (move : TaskMove plan s i source action phase effect) (k : Nat)
    (expired : phase = .running k .grace) : (s.apply i effect).sources ⟨i,k⟩ ≠ none := by
  cases move with
  | deadline m =>
    cases expired
    exact s.cancelSource_self _ _
  | startBody m => split at expired <;> cases expired
  | _ => cases expired

structure Signalled (s : State) : Prop where
  announced : s.requests ≠ [] ∨ s.sweep ≠ none ∨ 0 < s.completed → s.runCancellation ≠ none
  expired : ∀ attempt, s.tasks attempt.test = .running attempt.number .grace →
    s.sources attempt ≠ none
  astray : ∀ attempt ∈ s.orphans, s.sources attempt ≠ none
  reached : 0 < s.completed → ∀ attempt, (s.tasks attempt.test).begun = some attempt.number →
    s.sources attempt ≠ none
  sweeping : ∀ sweep, s.sweep = some sweep → ∀ attempt,
    (s.tasks attempt.test).begun = some attempt.number →
      s.sources attempt ≠ none ∨ attempt ∈ sweep.remaining

theorem Signalled.initial : Signalled initial where
  announced := by simp [Runner.initial]
  expired := by simp [Runner.initial]
  astray := by simp [Runner.initial]
  reached := by simp [Runner.initial]
  sweeping := by simp [Runner.initial]

/-- A worker picking up a test begins no body. -/
theorem Signalled.taken (signalled : Signalled s) (tasks : next.tasks = Function.update s.tasks i .taken)
    (sources : next.sources = s.sources) (orphans : next.orphans = s.orphans)
    (requests : next.requests = s.requests) (sweep : next.sweep = s.sweep)
    (completed : next.completed = s.completed)
    (cancellation : next.runCancellation = s.runCancellation) : Signalled next := by
  have begun (attempt : Attempt) (begins : (next.tasks attempt.test).begun = some attempt.number) :
      (s.tasks attempt.test).begun = some attempt.number := by
    rw [tasks] at begins
    by_cases mine : attempt.test = i
    · rw [mine,Function.update_self] at begins
      contradiction
    · rwa [Function.update_of_ne mine] at begins
  refine ⟨?_,fun attempt grace => ?_,?_,fun some attempt begins => ?_,fun held some attempt begins => ?_⟩
  · rw [requests,sweep,completed,cancellation]
    exact signalled.announced
  · rw [tasks] at grace
    by_cases mine : attempt.test = i
    · rw [mine,Function.update_self] at grace
      contradiction
    · rw [Function.update_of_ne mine] at grace
      rw [sources]
      exact signalled.expired attempt grace
  · rw [orphans,sources]
    exact signalled.astray
  · rw [sources]
    exact signalled.reached (completed ▸ some) attempt (begun attempt begins)
  · rw [sources]
    exact signalled.sweeping held (sweep ▸ some) attempt (begun attempt begins)

theorem Signalled.task (signalled : Signalled s)
    (move : TaskMove plan s i (s.tasks i) action phase effect) :
    Signalled ((s.apply i effect).setPhase i phase) := by
  have kept : ∀ attempt, s.sources attempt ≠ none → (s.apply i effect).sources attempt ≠ none :=
    fun attempt => s.apply_sources i effect attempt
  have begun (attempt : Attempt)
      (begins : (Function.update s.tasks i phase attempt.test).begun = some attempt.number) :
      (s.tasks attempt.test).begun = some attempt.number ∨ s.runCancellation = none := by
    by_cases mine : attempt.test = i
    · subst mine
      rw [Function.update_self] at begins
      exact move.begun _ begins
    · rw [Function.update_of_ne mine] at begins
      exact .inl begins
  have announced := signalled.announced
  refine ⟨fun asked => ?_,fun attempt grace => ?_,fun attempt member => ?_,
    fun some attempt begins => ?_,fun sweep held attempt begins => ?_⟩
  · apply s.apply_runCancellation i effect
    simpa [State.setPhase] using announced (by simpa [State.setPhase] using asked)
  · rw [State.setPhase_tasks,State.apply_tasks] at grace
    by_cases mine : attempt.test = i
    · subst mine
      rw [Function.update_self] at grace
      exact move.grace _ grace
    · rw [Function.update_of_ne mine] at grace
      exact kept attempt (signalled.expired attempt grace)
  · apply kept attempt
    rcases move.orphans attempt member with earlier | ⟨rfl,from_,_⟩
    · exact signalled.astray attempt earlier
    · exact signalled.expired attempt from_
  · have some : 0 < s.completed := by simpa [State.setPhase] using some
    apply kept attempt
    exact signalled.reached some attempt ((begun attempt (by simpa using begins)).resolve_right
      (announced (.inr (.inr some))))
  · have held : s.sweep = some sweep := by simpa [State.setPhase] using held
    have earlier := (begun attempt (by simpa using begins)).resolve_right
      (announced (.inr (.inl (by rw [held]; exact Option.some_ne_none _))))
    exact (signalled.sweeping sweep held attempt earlier).imp_left (kept attempt)

theorem registered_of_begun (phase : Phase) (k : Nat) (begun : phase.begun = some k) :
    phase.registered = some k := by
  cases phase <;> first | exact begun | contradiction

theorem Signalled.step (registered : Registered s)
    (signalled : Signalled s) {action : Action} (taken : step plan action s = some next) :
    Signalled next := by
  cases step_move taken with
  | task i action phase effect move => exact signalled.task move
  | take worker i rest queued free => exact signalled.taken rfl rfl rfl rfl rfl rfl rfl
  | call j here waiting => exact signalled.taken rfl rfl rfl rfl rfl rfl rfl
  | main action main move =>
    exact ⟨signalled.announced,signalled.expired,signalled.astray,signalled.reached,signalled.sweeping⟩
  | submit j here =>
    exact ⟨signalled.announced,signalled.expired,signalled.astray,signalled.reached,signalled.sweeping⟩
  | orphanEnds attempt member =>
    exact ⟨signalled.announced,signalled.expired,
      fun other left => signalled.astray other (List.mem_of_mem_erase left),signalled.reached,
      signalled.sweeping⟩
  | request reason =>
    exact ⟨fun _ => cancel_ne_none _ _,signalled.expired,signalled.astray,signalled.reached,
      signalled.sweeping⟩
  | lock call reason free pending =>
    have asked : s.runCancellation ≠ none :=
      signalled.announced (.inl (List.ne_nil_of_mem (List.mem_of_getElem? pending)))
    refine ⟨fun _ => asked,signalled.expired,signalled.astray,signalled.reached,
      fun sweep held attempt begins => .inr ?_⟩
    obtain rfl := Option.some.inj held
    exact (registered.member attempt).mpr (registered_of_begun _ _ begins)
  | signalNext reason attempt rest sweeping =>
    have kept (other : Attempt) := s.cancelSource_sources attempt other reason
    refine ⟨fun _ => signalled.announced (.inr (.inl (by simp [sweeping]))),
      fun other grace => kept other (signalled.expired other grace),
      fun other member => kept other (signalled.astray other member),
      fun some other begins => kept other (signalled.reached some other begins),
      fun sweep held other begins => ?_⟩
    obtain rfl := Option.some.inj held
    rcases signalled.sweeping _ sweeping other begins with cancelled | member
    · exact .inl (kept other cancelled)
    · rcases List.mem_cons.mp member with rfl | later
      · exact .inl (s.cancelSource_self _ _)
      · exact .inr later
  | unlock reason sweeping =>
    refine ⟨fun _ => signalled.announced (.inr (.inl (by simp [sweeping]))),signalled.expired,
      signalled.astray,fun _ attempt begins => ?_,fun sweep held => by contradiction⟩
    simpa using signalled.sweeping _ sweeping attempt begins

theorem Signalled.run (sound : Sound plan s) (signalled : Signalled s) (labels : List Action)
    (path : Transition.run (Runner.step plan) labels s = some next) : Signalled next :=
  (Transition.run_invariant (Runner.step plan) (fun s => Sound plan s ∧ Signalled s)
    (fun _ _ _ both taken => ⟨both.1.step taken,both.2.step both.1.registered taken⟩)
    labels s next path ⟨sound,signalled⟩).2

/-- Where a test can be whose attempt `k` found the run cancelled at its check. -/
def Refused (plan : Plan) (s : State) (i k : Nat) : Prop :=
  let skipped (result : TestResult) := result.status = .skipped ∧ Names (plan.test i) result
  match s.tasks i with
  | .checking m => m = k
  | .leaving m result => m = k ∧ skipped result
  | .returned m result => m = k ∧ skipped result
  | .handling result => skipped result
  | phase => phase.handled = true ∧ ∃ result, (i,result) ∈ s.results ∧ skipped result

/-- Which results are recorded only grows. -/
theorem step_results {action : Action} (taken : step plan action s = some next)
    (entry : Nat × TestResult) (member : entry ∈ s.results) : entry ∈ next.results := by
  cases step_move taken with
  | task i action phase effect move =>
    show entry ∈ (s.apply i effect).results
    rcases move.recording with ⟨result,diagnostics,_,_,results⟩ | results
    · rw [results]
      exact List.mem_append_left _ member
    · rwa [results]
  | _ => exact member

theorem TaskMove.stays_refused (sound : Sound plan s) (cancelled : s.runCancellation ≠ none) (k : Nat)
    (move : TaskMove plan s i (s.tasks i) action phase effect) (refused : Refused plan s i k) :
    Refused plan ((s.apply i effect).setPhase i phase) i k := by
  have named := sound.records.carried i
  unfold Refused at refused ⊢
  rw [State.setPhase_tasks,Function.update_self]
  generalize here : s.tasks i = source at move refused named
  cases move with
  | refused m stamp reason found =>
    obtain rfl := refused
    exact ⟨rfl,rfl,((names_base plan s i m stamp).notRun reason).finish stamp⟩
  | passed m stamp running => exact absurd running cancelled
  | leave m result free => exact refused
  | retry m result again =>
    simp [retried,refused.2.1,TestStatus.isFailure] at again
  | settle m result last =>
    exact ⟨by rw [flagged_status]; exact refused.2.1,names_flagged refused.2.2 m⟩
  | record result diagnostics =>
    exact ⟨rfl,diagnosed plan diagnostics result,List.mem_append_right _ (by simp),
      by rw [diagnosed_status]; exact refused.1,names_diagnosed refused.2 diagnostics⟩
  | handled result calm => exact ⟨rfl,refused.2⟩
  | trips result tripping => exact ⟨rfl,refused.2⟩
  | handlerThrew result escape => exact ⟨rfl,refused.2⟩
  | trip result => exact ⟨rfl,refused.2⟩
  | signal result => exact ⟨rfl,refused.2⟩
  | _ => simp_all [Phase.handled,Phase.over]

theorem Refused.of_same (k : Nat) (refused : Refused plan s i k)
    (tasks : next.tasks i = s.tasks i) (results : ∀ entry ∈ s.results, entry ∈ next.results) :
    Refused plan next i k := by
  unfold Refused at refused ⊢
  rw [tasks]
  cases here : s.tasks i <;> simp only [here] at refused ⊢ <;>
    first
    | exact refused
    | exact ⟨refused.1,refused.2.imp fun result found => ⟨results _ found.1,found.2⟩⟩

theorem Refused.not_waiting (k : Nat) (refused : Refused plan s i k) : s.tasks i ≠ .waiting := by
  intro waits
  simp [Refused,waits,Phase.handled,Phase.over] at refused

theorem Refused.step (sound : Sound plan s) (cancelled : s.runCancellation ≠ none) (k : Nat)
    (refused : Refused plan s i k) {action : Action} (taken : step plan action s = some next) :
    Refused plan next i k := by
  have results := step_results taken
  have different (j : Nat) (waits : s.tasks j = .waiting) : i ≠ j := fun equal =>
    refused.not_waiting k (equal ▸ waits)
  cases step_move taken with
  | task j action phase effect move =>
    by_cases mine : i = j
    · subst mine
      exact move.stays_refused sound cancelled k refused
    · exact refused.of_same k (by simp [mine]) results
  | take worker j rest queued free =>
    have away := different j (sound.control.queued j (by simp [queued])).2
    exact refused.of_same k (Function.update_of_ne away _ _) results
  | call j here waiting =>
    exact refused.of_same k (Function.update_of_ne (different j waiting) _ _) results
  | _ => exact refused.of_same k rfl results

/-- Refusal keeps the attempt's body from being run. -/
theorem Refused.no_orphan (k : Nat) (refused : Refused plan s i k) {action : Action}
    (taken : Runner.step plan action s = some next) (unrun : (⟨i,k⟩ : Attempt) ∉ s.orphans) :
    (⟨i,k⟩ : Attempt) ∉ next.orphans := by
  cases step_move taken with
  | task j action phase effect move =>
    intro astray
    rcases move.orphans ⟨i,k⟩ astray with earlier | ⟨rfl,from_,_⟩
    · exact unrun earlier
    · simp [Refused,from_,Phase.handled,Phase.over] at refused
  | orphanEnds attempt member => exact fun left => unrun (List.mem_of_mem_erase left)
  | _ => exact unrun

theorem Refused.run (sound : Sound plan s) (cancelled : s.runCancellation ≠ none) (k : Nat)
    (refused : Refused plan s i k) (unrun : (⟨i,k⟩ : Attempt) ∉ s.orphans) (labels : List Action)
    (path : Transition.run (Runner.step plan) labels s = some next) :
    Refused plan next i k ∧ (⟨i,k⟩ : Attempt) ∉ next.orphans := by
  have final := Transition.run_invariant (Runner.step plan)
    (fun s => (Sound plan s ∧ s.runCancellation ≠ none) ∧ Refused plan s i k ∧
      (⟨i,k⟩ : Attempt) ∉ s.orphans)
    (fun _ _ _ held taken => ⟨⟨held.1.1.step taken,step_runCancellation taken held.1.2⟩,
      held.2.1.step held.1.1 held.1.2 k taken,held.2.1.no_orphan k taken held.2.2⟩)
    labels s next path ⟨⟨sound,cancelled⟩,refused,unrun⟩
  exact final.2

/-- The body of the attempt is not executing, and once its test is over, its result
is there and says SKIPPED; a run that returns has it among its results. -/
def SkippedUnrun (plan : Plan) (s : State) (i k : Nat) : Prop :=
  let skipped (result : TestResult) := result.status = .skipped ∧ Names (plan.test i) result
  ¬Executing s ⟨i,k⟩ ∧
  ((s.tasks i).over = true → ∃ result, (i,result) ∈ s.results ∧ skipped result) ∧
  ∀ run, s.main = .returned run → ∃ result ∈ run.results, skipped result

theorem Refused.skippedUnrun (sound : Sound plan s) (k : Nat) (refused : Refused plan s i k)
    (unrun : (⟨i,k⟩ : Attempt) ∉ s.orphans) : SkippedUnrun plan s i k := by
  have recorded (past : (s.tasks i).over = true) : ∃ result, (i,result) ∈ s.results ∧
      result.status = .skipped ∧ Names (plan.test i) result := by
    unfold Refused at refused
    cases here : s.tasks i <;> simp only [here] at refused past <;>
      first
      | exact refused.2
      | simp [Phase.over] at past
  refine ⟨?_,recorded,fun run here => ?_⟩
  · rintro (⟨watch,running⟩ | astray)
    · simp [Refused,running,Phase.handled,Phase.over] at refused
    · exact unrun astray
  · have stage := sound.control.stage
    rw [here] at stage
    obtain ⟨result,member,skipped⟩ :=
      recorded (stage.2 i (sound.control.selected i (refused.not_waiting k)))
    exact ⟨result,(sound.closed run (.inr here)).mem_iff.mpr (List.mem_map_of_mem member),skipped⟩

/-- Once a call of `requestCancellation` has returned: in every state from then on, the
token of every executing body is cancelled, and a test that registers is recorded as
SKIPPED without its body being run. -/
theorem requestCancellation_reaches (plan : Plan) (labels : List Action) (s : State)
    (path : Transition.run (step plan) labels initial = some s) (returned : 0 < s.completed)
    (more : List Action) (later : State)
    (onward : Transition.run (step plan) more s = some later) :
    (∀ attempt, Executing later attempt → later.sources attempt ≠ none) ∧
    ∀ i k next, later.tasks i = .registering k → step plan (.task i .register) later = some next →
      ∀ rest final, Transition.run (step plan) rest next = some final → SkippedUnrun plan final i k := by
  have sound := (Sound.initial plan).run labels path
  have signalled := Signalled.initial.run (Sound.initial plan) labels path
  have held := Transition.run_invariant (step plan) (fun s => 0 < s.completed)
    (fun action s next some taken => by
      cases step_move taken with
      | task i action phase effect move => simpa [State.setPhase] using some
      | unlock reason sweeping => exact Nat.succ_pos _
      | _ => exact some) more s later onward returned
  have soundLater := sound.run more onward
  have signalledLater := signalled.run sound more onward
  refine ⟨?_,fun i k next here taken rest final path => ?_⟩
  · rintro attempt (⟨watch,running⟩ | astray)
    · exact signalledLater.reached held attempt (by rw [running]; rfl)
    · exact signalledLater.astray attempt astray
  · have cancelled := step_runCancellation taken (signalledLater.announced (.inr (.inr held)))
    have unrun : (⟨i,k⟩ : Attempt) ∉ later.orphans := fun astray =>
      soundLater.astray _ astray (by rw [here]; exact Nat.le_refl k)
    have soundNext := soundLater.step taken
    cases step_move taken with
    | main action main move => cases move
    | task _ _ phase effect move =>
      rw [here] at move
      cases move with
      | register _ free =>
        have refused : Refused plan ((later.apply i (.register ⟨i,k⟩)).setPhase i (.checking k)) i k := by
          simp [Refused]
        have kept := refused.run soundNext cancelled k unrun rest path
        exact kept.1.skippedUnrun (soundNext.run rest path) k kept.2

/-- Two tests on two workers, with the default timeout. -/
def twoTests : Plan where
  selected := [{ name := ascii "a" },{ name := ascii "b" }]
  distinct := by decide
  options := { workers := 2 }

/-- An assertion that does not hold. -/
def brokenBody : BodyRecord where
  outcome := .threw false (.assertionFailure (ascii "broken") [] [] [] none)

/-- The first test is executing when the run is cancelled from outside. -/
def cancelledFirst : List Action :=
  [.start none,.submit,.submit,.take 0,.task 0 .begin,.task 0 (.observerStarted none),
    .task 0 (.enter {}),.task 0 (.create .made {}),.task 0 .register,.task 0 (.check {}),
    .task 0 .startBody,.request (ascii "stop"),.lock 0,.signalNext,.unlock]

theorem requestCancellation_reaches_twoTests :
    ∃ s, Transition.run (step twoTests) cancelledFirst initial = some s ∧ Executing s ⟨0,1⟩ ∧
      s.sources ⟨0,1⟩ ≠ none := by
  have ends : (Transition.run (step twoTests) cancelledFirst initial).isSome = true := by decide
  obtain ⟨s,path⟩ := Option.isSome_iff_exists.mp ends
  have returned : (Transition.run (step twoTests) cancelledFirst initial).map (·.completed) = some 1 := by
    decide
  have one : s.completed = 1 := by simpa [path] using returned
  have running : (Transition.run (step twoTests) cancelledFirst initial).map (·.tasks 0) =
      some (.running 1 .polling) := rfl
  have executing : Executing s ⟨0,1⟩ := .inl ⟨.polling,by simpa [path] using running⟩
  exact ⟨s,path,executing,(requestCancellation_reaches twoTests cancelledFirst s path
    (by omega) [] s rfl).1 ⟨0,1⟩ executing⟩

end TestForge.Runner
