import TestForge.RunnerRecords

/-! Which results are framework errors: a test has one only when its factory makes nothing
or its own code throws a `FrameworkError`. -/
namespace TestForge

open Json Strings

namespace FailureClassifier

theorem fromMessage_ne_frameworkError (message : Bytes) : fromMessage message ≠ .frameworkError := by
  have listed : ∀ signal ∈ messageSignals, signal.2 ≠ .frameworkError := by decide
  unfold fromMessage
  split
  · next signal found => exact listed signal (List.mem_of_find?_eq_some found)
  · simp

theorem ite_ne {α : Type} {a b c : α} {p : Prop} [Decidable p] (first : a ≠ c) (second : b ≠ c) :
    (if p then a else b) ≠ c := by
  split
  · exact first
  · exact second

theorem promote_ne {refined candidate category : FailureCategory} (first : refined ≠ category)
    (second : candidate ≠ category) : promote refined candidate ≠ category :=
  ite_ne second first

theorem promoteBy_ne (metadata : Value) (key : Bytes) {choose : Bytes → Option FailureCategory}
    {refined category : FailureCategory} (base : refined ≠ category)
    (others : ∀ text candidate, choose text = some candidate → candidate ≠ category) :
    promoteBy metadata key choose refined ≠ category := by
  unfold promoteBy
  split
  · next candidate found =>
    obtain ⟨text,_,chosen⟩ := Option.bind_eq_some_iff.mp found
    exact promote_ne base (others text candidate chosen)
  · exact base

/-- Refining finds no framework error that was not there. -/
theorem refine_ne_frameworkError {base : FailureCategory} (metadata : Value) (clean : base ≠ .frameworkError) :
    refine base metadata ≠ .frameworkError := by
  have message (text : Bytes) (candidate : FailureCategory) (chosen : some (fromMessage text) = some candidate) :
      candidate ≠ .frameworkError := Option.some.inj chosen ▸ fromMessage_ne_frameworkError text
  have settled {status : FailureCategory} (fine : status ≠ .frameworkError) :
      promoteBy metadata (ascii "missing_dependency") (fun text => if text = [] then none else some .dependencyFailure)
        (promoteBy metadata (ascii "transport_error") (fun text => some (fromMessage text)) status) ≠
          .frameworkError := by
    refine promoteBy_ne metadata _ (promoteBy_ne metadata _ fine message) fun text candidate chosen => ?_
    split at chosen <;> cases chosen
    simp
  unfold FailureClassifier.refine
  refine ite_ne (promoteBy_ne metadata (ascii "error_hint") (settled ?_) message) (settled ?_)
  all_goals
    split
    · exact ite_ne (promote_ne clean (by simp)) clean
    · exact clean

end FailureClassifier

/-- The body threw a `FrameworkError`. -/
def BodyEnd.blames : BodyEnd → Bool
  | .threw _ (.testForgeError _ category) => category == .frameworkError
  | _ => false

theorem classify_ne_frameworkError {inSetUp : Bool} {thrown : Thrown}
    (clean : (BodyEnd.threw inSetUp thrown).blames = false) :
    (FailureClassifier.classify thrown).category ≠ .frameworkError := by
  have described (what typeName : Bytes) (badAlloc : Bool) :
      (FailureClassifier.describeStd what typeName badAlloc).category ≠ .frameworkError := by
    have message := FailureClassifier.fromMessage_ne_frameworkError (what.takeWhile (· ≠ 10))
    simp only [FailureClassifier.describeStd,FailureClassifier.describe]
    exact FailureClassifier.ite_ne (by simp) message
  cases thrown with
  | testForgeError what category => simpa [BodyEnd.blames,FailureClassifier.classify,FailureClassifier.describe] using clean
  | badAlloc what typeName => exact described what typeName true
  | stdException what typeName => exact described what typeName false
  | _ => simp [FailureClassifier.classify,FailureClassifier.describe,FailureClassifier.fromUnknownException]

theorem executeBody_ne_frameworkError (result : TestResult) {outcome : BodyEnd} (clean : outcome.blames = false) :
    (executeBody result outcome).failureCategory ≠ .frameworkError := by
  cases outcome with
  | returned => simp [executeBody]
  | threw inSetUp thrown =>
    have category := classify_ne_frameworkError clean
    simp only [executeBody]
    split <;> exact category

theorem verdict_ne_frameworkError (base : TestResult) {record : BodyRecord} (clean : record.outcome.blames = false)
    (deadlineExceeded cancelledByRun : Bool) (timeoutMs : Int) (reason : Bytes) (attempt : Nat) :
    (verdict base record deadlineExceeded cancelledByRun timeoutMs reason attempt).failureCategory ≠
      .frameworkError := by
  have body := executeBody_ne_frameworkError base clean
  have overridden (result : TestResult) (category : result.failureCategory ≠ .frameworkError) :
      (overrideVerdictForCancellation deadlineExceeded cancelledByRun timeoutMs reason result).failureCategory ≠
        .frameworkError := by
    unfold overrideVerdictForCancellation
    split
    · simp
    · split
      · simp
      · exact category
  simp only [verdict,refineFailure]
  split
  · exact FailureClassifier.refine_ne_frameworkError _ (overridden _ body)
  · exact overridden _ body

namespace Runner

variable {plan : Plan} {s next : State} {i : Nat} {source phase : Phase} {effect : Effect}

/-- The two steps that can make the result of test `i` a framework error. -/
def Blamed (i : Nat) : Action → Prop
  | .task j (.create .nothing _) => j = i
  | .task j (.bodyEnds record) => j = i ∧ record.outcome.blames = true
  | _ => False

/-- Nothing of the test is a framework error. -/
def Phase.Clean : Phase → Prop
  | .ended _ record _ => record.outcome.blames = false
  | phase => ∀ result ∈ phase.result?, result.failureCategory ≠ .frameworkError

theorem TaskMove.clean {action : TaskAction} (move : TaskMove plan s i source action phase effect)
    (innocent : ¬Blamed i (.task i action)) (clean : source.Clean) : phase.Clean := by
  cases move
  case nothing k stamp => exact (innocent rfl).elim
  case bodyEnds k watch record => simpa [Blamed,Phase.Clean] using innocent
  case lateForward | lateDeadline => exact clean
  case verdict k record watch stamp =>
    have mine : (attemptVerdict plan s i k record watch stamp).failureCategory ≠ .frameworkError :=
      verdict_ne_frameworkError _ clean _ _ _ _ _
    simpa [Phase.Clean,Phase.result?] using mine
  case settle k result last =>
    have before := clean result rfl
    simp only [Phase.Clean,Phase.result?,Option.mem_def,Option.some.injEq,forall_eq',flagged]
    split <;> exact before
  case record result diagnostics =>
    have before := clean result rfl
    simp only [Phase.Clean,Phase.result?,Option.mem_def,Option.some.injEq,forall_eq',diagnosed]
    split <;> exact before
  case leave | trips | trip => exact clean
  all_goals simp [Phase.Clean,Phase.result?,finish,disabledResult,notRun,describeAbandonedTest]

/-- Test `i` has no framework error, recorded or under way. -/
structure Innocent (i : Nat) (s : State) : Prop where
  phase : (s.tasks i).Clean
  recorded : ∀ result, (i,result) ∈ s.results → result.failureCategory ≠ .frameworkError

theorem Innocent.initial (i : Nat) : Innocent i initial :=
  ⟨by simp [Runner.initial,Phase.Clean,Phase.result?],by simp [Runner.initial]⟩

theorem Innocent.update (innocent : Innocent i s) (results : next.results = s.results) {j : Nat}
    (tasks : next.tasks = Function.update s.tasks j phase) (clean : j = i → phase.Clean) : Innocent i next := by
  refine ⟨?_,results ▸ innocent.recorded⟩
  rw [tasks]
  by_cases mine : i = j
  · subst mine
    rw [Function.update_self]
    exact clean rfl
  · rw [Function.update_of_ne mine]
    exact innocent.phase

theorem Innocent.step (innocent : Innocent i s) {action : Action} (unblamed : ¬Blamed i action)
    (taken : Runner.step plan action s = some next) : Innocent i next := by
  cases step_move taken with
  | take worker j rest queued free =>
    exact innocent.update rfl rfl fun _ => by simp [Phase.Clean,Phase.result?]
  | call j here waiting => exact innocent.update rfl rfl fun _ => by simp [Phase.Clean,Phase.result?]
  | task j action phase effect move =>
    have clean (mine : j = i) : phase.Clean := by
      subst mine
      exact move.clean unblamed innocent.phase
    rcases move.recording with ⟨result,diagnostics,from_,rfl,results⟩ | results
    · refine ⟨?_,fun other member => ?_⟩
      · rw [State.setPhase_tasks,State.apply_tasks]
        by_cases mine : i = j
        · subst mine
          rw [Function.update_self]
          exact clean rfl
        · rw [Function.update_of_ne mine]
          exact innocent.phase
      · rw [show ((s.apply j effect).setPhase j _).results = _ from results] at member
        rcases List.mem_append.mp member with earlier | last
        · exact innocent.recorded other earlier
        · obtain ⟨rfl,rfl⟩ := Prod.mk.inj (List.mem_singleton.mp last)
          exact clean rfl _ rfl
    · exact innocent.update results (by simp) clean
  | main action main move => exact ⟨innocent.phase,innocent.recorded⟩
  | submit j here => exact ⟨innocent.phase,innocent.recorded⟩
  | orphanEnds attempt member => exact ⟨innocent.phase,innocent.recorded⟩
  | request reason => exact ⟨innocent.phase,innocent.recorded⟩
  | lock call reason free pending => exact ⟨innocent.phase,innocent.recorded⟩
  | signalNext reason attempt rest sweeping => exact ⟨innocent.phase,innocent.recorded⟩
  | unlock reason sweeping => exact ⟨innocent.phase,innocent.recorded⟩

end Runner
end TestForge
