import TestForge.RunnerExitCode
import TestForge.RunnerFramework
import TestForge.RunnerPersistence

/-! Status and category of every result that `runOne` returns, whatever its body does and
however its deadline and the run's cancellation fall. -/
namespace TestForge

open Json Strings

/-! ### Refining a category -/

namespace FailureClassifier

def promoteAll (base : FailureCategory) (candidates : List FailureCategory) : FailureCategory :=
  candidates.foldl promote base

/-- The category that a text member of the metadata speaks for. -/
def textSignal (metadata : Value) (key : Bytes) : List FailureCategory :=
  (((metadata.find key).bind Value.asString?).map fromMessage).toList

/-- What `refine` looks at in any case, in its order. -/
def signals (metadata : Value) : List FailureCategory :=
  ((readNumber metadata (ascii "http_status")).toList.filter (· ≥ 500)).map (fun _ => .applicationFailure) ++
    textSignal metadata (ascii "transport_error") ++
    (((metadata.find (ascii "missing_dependency")).bind Value.asString?).toList.filter (· ≠ [])).map
      fun _ => .dependencyFailure

theorem promoteBy_text (metadata : Value) (key : Bytes) (base : FailureCategory) :
    promoteBy metadata key (fun text => some (fromMessage text)) base = promoteAll base (textSignal metadata key) := by
  rw [promoteBy,textSignal]
  cases (metadata.find key).bind Value.asString? <;> rfl

theorem promoteBy_missing (metadata : Value) (base : FailureCategory) :
    promoteBy metadata (ascii "missing_dependency") (fun text => if text = [] then none else some .dependencyFailure)
      base = promoteAll base
        ((((metadata.find (ascii "missing_dependency")).bind Value.asString?).toList.filter (· ≠ [])).map
          fun _ => .dependencyFailure) := by
  rw [promoteBy]
  cases (metadata.find (ascii "missing_dependency")).bind Value.asString? with
  | none => rfl
  | some text => by_cases empty : text = [] <;> simp [empty,promoteAll]

theorem refine_eq (base : FailureCategory) (metadata : Value) : refine base metadata =
    if promoteAll base (signals metadata) = .unknown then
      promoteAll .unknown (textSignal metadata (ascii "error_hint"))
    else promoteAll base (signals metadata) := by
  have hinted (refined : FailureCategory) :
      (if refined = .unknown then (textSignal metadata (ascii "error_hint")).foldl promote refined else refined) =
        if refined = .unknown then (textSignal metadata (ascii "error_hint")).foldl promote .unknown else refined := by
    split
    · next unknown => rw [unknown]
    · rfl
  simp only [refine,promoteBy_text,promoteBy_missing,signals,promoteAll,List.foldl_append]
  cases readNumber metadata (ascii "http_status") with
  | none => exact hinted _
  | some code =>
    by_cases bad : code ≥ 500
    · simpa [bad] using hinted _
    · simpa [bad] using hinted _

theorem specificity_le_promote (base candidate : FailureCategory) :
    specificity base ≤ specificity (promote base candidate) ∧
      specificity candidate ≤ specificity (promote base candidate) := by
  unfold promote
  split <;> omega

theorem specificity_le_promoteAll (base : FailureCategory) (candidates : List FailureCategory) :
    specificity base ≤ specificity (promoteAll base candidates) ∧
      ∀ candidate ∈ candidates, specificity candidate ≤ specificity (promoteAll base candidates) := by
  induction candidates generalizing base with
  | nil => simp [promoteAll]
  | cons candidate rest ih =>
    obtain ⟨grown,others⟩ := ih (promote base candidate)
    have step := specificity_le_promote base candidate
    refine ⟨Nat.le_trans step.1 grown,fun other member => ?_⟩
    rcases List.mem_cons.mp member with rfl | member
    · exact Nat.le_trans step.2 grown
    · exact others other member

/-- Nothing is promoted by candidates that are no more specific. -/
theorem promoteAll_of_le (base : FailureCategory) (candidates : List FailureCategory)
    (vague : ∀ candidate ∈ candidates, specificity candidate ≤ specificity base) : promoteAll base candidates = base := by
  induction candidates with
  | nil => rfl
  | cons candidate rest ih =>
    have kept : promote base candidate = base := if_neg (Nat.not_lt.mpr (vague candidate (by simp)))
    rw [promoteAll,List.foldl_cons,kept]
    exact ih fun other member => vague other (List.mem_cons_of_mem _ member)

theorem specificity_le_refine (base : FailureCategory) (metadata : Value) :
    specificity base ≤ specificity (refine base metadata) := by
  have first := (specificity_le_promoteAll base (signals metadata)).1
  rw [refine_eq]
  split
  · next unknown =>
    rw [unknown] at first
    exact Nat.le_trans first (specificity_le_promoteAll _ _).1
  · exact first

/-- A second pass finds nothing more specific. -/
theorem refine_refine (base : FailureCategory) (metadata : Value) :
    refine (refine base metadata) metadata = refine base metadata := by
  obtain ⟨refined,once⟩ : ∃ refined, refine base metadata = refined := ⟨_,rfl⟩
  have settled : ∀ candidate ∈ signals metadata, specificity candidate ≤ specificity refined := by
    intro candidate member
    have bound := (specificity_le_promoteAll base (signals metadata)).2 candidate member
    rw [refine_eq] at once
    split at once
    · next unknown =>
      rw [unknown] at bound
      exact Nat.le_trans bound (once ▸ (specificity_le_promoteAll _ _).1)
    · rwa [once] at bound
  rw [once,refine_eq,promoteAll_of_le refined _ settled]
  split
  · next unknown =>
    rw [refine_eq] at once
    split at once
    · rw [once]
    · next known => exact absurd (once.trans unknown) known
  · rfl

theorem refine_timeout (metadata : Value) : refine .timeout metadata = .timeout := by
  have top : ∀ category, specificity category ≤ specificity .timeout := by
    intro category
    cases category <;> decide
  rw [refine_eq,promoteAll_of_le _ _ fun candidate _ => top candidate]
  rfl

theorem refine_ne_none (base : FailureCategory) (metadata : Value) (failing : base ≠ .none) :
    refine base metadata ≠ .none := by
  intro none
  have grown := specificity_le_refine base metadata
  rw [none] at grown
  cases base <;> simp [specificity] at grown failing

theorem specificity_pos (category : FailureCategory) (failing : category ≠ .none) : 0 < specificity category := by
  cases category <;> simp [specificity] at failing ⊢

theorem fromMessage_ne_none (message : Bytes) : fromMessage message ≠ .none := by
  have listed : ∀ signal ∈ messageSignals, signal.2 ≠ .none := by decide
  unfold fromMessage
  split
  · next signal found => exact listed signal (List.mem_of_find?_eq_some found)
  · simp

/-- Whatever is recorded speaks for a failure. -/
theorem signals_ne_none (metadata : Value) : ∀ candidate ∈ signals metadata, candidate ≠ .none := by
  intro candidate member
  simp only [signals,textSignal,List.mem_append,List.mem_map,Option.mem_toList,Option.map_eq_some_iff] at member
  rcases member with (⟨_,_,rfl⟩ | ⟨text,_,rfl⟩) | ⟨_,_,rfl⟩
  · simp
  · exact fromMessage_ne_none text
  · simp

theorem refine_signals (base : FailureCategory) (metadata : Value) (recorded : signals metadata ≠ []) :
    refine base metadata ≠ .none := by
  obtain ⟨candidate,member⟩ := List.exists_mem_of_ne_nil _ recorded
  have speaks := specificity_pos candidate (signals_ne_none metadata candidate member)
  have grown := (specificity_le_promoteAll base (signals metadata)).2 candidate member
  have hinted := (specificity_le_promoteAll .unknown (textSignal metadata (ascii "error_hint"))).1
  intro none
  rw [refine_eq] at none
  split at none
  · rw [none] at hinted
    exact absurd hinted (by decide)
  · rw [none] at grown
    exact absurd (Nat.lt_of_lt_of_le speaks grown) (by decide)

end FailureClassifier

/-! ### How a body may end -/

/-- The concrete exception classes of `Exceptions.hpp`. -/
inductive ForgeException where
  | assertionFailure (message expression expected actual : Bytes) (location : Option Bytes)
  | skipTest (reason : Bytes)
  | testCancelled (reason : Bytes)
  | configurationError (message : Bytes)
  | environmentError (message : Bytes)
  | dependencyError (message : Bytes)
  | networkError (message : Bytes)
  | resourceError (message : Bytes)
  | persistenceError (message : Bytes)
  | securityError (message : Bytes)
  | frameworkError (message : Bytes)

/-- With the category that the constructor of the class passes on. -/
def ForgeException.thrown : ForgeException → Thrown
  | .assertionFailure message expression expected actual location =>
    .assertionFailure message expression expected actual location
  | .skipTest reason => .skipTest reason
  | .testCancelled reason => .testCancelled reason
  | .configurationError message => .testForgeError message .configurationFailure
  | .environmentError message => .testForgeError message .environmentFailure
  | .dependencyError message => .testForgeError message .dependencyFailure
  | .networkError message => .testForgeError message .networkFailure
  | .resourceError message => .testForgeError message .resourceFailure
  | .persistenceError message => .testForgeError message .frameworkError
  | .securityError message => .testForgeError message .configurationFailure
  | .frameworkError message => .testForgeError message .frameworkError

/-- What the test recorded, as `refine` comes to read it. -/
def BodyRecord.metadata (record : BodyRecord) : Value :=
  record.collectedMetadata.foldl (fun metadata member => metadata.set member.1 member.2) (.object [])

/-- The body throws a `TestForgeError` that says there is no failure, and recorded nothing that speaks for one. -/
def BodyRecord.Unexplained (record : BodyRecord) : Prop :=
  (∃ inSetUp what, record.outcome = .threw inSetUp (.testForgeError what .none)) ∧
    FailureClassifier.signals record.metadata = []

/-! ### Status and category -/

/-- Status and category agree. -/
structure Agree (status : TestStatus) (category : FailureCategory) : Prop where
  none_iff : status = .passed ∨ status = .skipped ↔ category = .none
  timeout : status = .timeout → category = .timeout

instance Agree.decidable (status : TestStatus) (category : FailureCategory) : Decidable (Agree status category) :=
  decidable_of_iff ((status = .passed ∨ status = .skipped ↔ category = .none) ∧ (status = .timeout → category = .timeout))
    ⟨fun ⟨none_iff,timeout⟩ => ⟨none_iff,timeout⟩,fun agree => ⟨agree.none_iff,agree.timeout⟩⟩

theorem agree_error (category : FailureCategory) (failing : category ≠ .none) : Agree .error category :=
  ⟨by simp [failing],by simp⟩

theorem agree_passed : Agree .passed .none := by decide
theorem agree_skipped : Agree .skipped .none := by decide
theorem agree_failed : Agree .failed .assertionFailure := by decide
theorem agree_timeout : Agree .timeout .timeout := by decide

namespace FailureClassifier

theorem agree_describeStd (what typeName : Bytes) (badAlloc : Bool) :
    Agree (describeStd what typeName badAlloc).status (describeStd what typeName badAlloc).category :=
  agree_error _ (ite_ne (by simp) (fromMessage_ne_none _))

/-- Every exception but a `TestForgeError` that says there is no failure. -/
theorem agree_classify (thrown : Thrown) (plain : ∀ what, thrown ≠ .testForgeError what .none) :
    Agree (classify thrown).status (classify thrown).category := by
  cases thrown with
  | testForgeError what category =>
    by_cases late : category = .timeout
    · subst late
      exact agree_timeout
    · simp only [classify,describe,if_neg late]
      exact agree_error category fun none => plain what (none ▸ rfl)
  | skipTest => exact agree_skipped
  | testCancelled => exact agree_timeout
  | badAlloc what typeName => exact agree_describeStd what typeName true
  | stdException what typeName => exact agree_describeStd what typeName false
  | assertionFailure => exact agree_failed
  | other => exact agree_error _ (by decide)

end FailureClassifier

/-- None of the concrete classes says so. -/
theorem ForgeException.explained (exception : ForgeException) (inSetUp : Bool) :
    ¬BodyRecord.Unexplained { outcome := .threw inSetUp exception.thrown } := by
  rintro ⟨⟨_,what,same⟩,-⟩
  cases exception <;> cases same

theorem agree_executeBody (base : TestResult) (outcome : BodyEnd)
    (plain : ∀ inSetUp what, outcome ≠ .threw inSetUp (.testForgeError what .none)) :
    Agree (executeBody base outcome).status (executeBody base outcome).failureCategory := by
  cases outcome with
  | returned => exact agree_passed
  | threw inSetUp thrown =>
    have agree := FailureClassifier.agree_classify thrown fun what same => plain inSetUp what (by rw [same])
    simp only [executeBody]
    split
    · next failed =>
      refine agree_error _ fun none => ?_
      rw [failed.2] at agree
      simpa using agree.none_iff.mpr none
    · exact agree

theorem agree_refine (status : TestStatus) (category : FailureCategory) (metadata : Value) (agree : Agree status category)
    (failing : status.isFailure = true) : Agree status (FailureClassifier.refine category metadata) := by
  have some : category ≠ .none := fun none => by
    rcases agree.none_iff.mpr none with rfl | rfl <;> simp [TestStatus.isFailure] at failing
  have still := FailureClassifier.refine_ne_none category metadata some
  refine ⟨⟨fun fine => ?_,fun none => absurd none still⟩,fun late => ?_⟩
  · rcases fine with rfl | rfl <;> simp [TestStatus.isFailure] at failing
  · rw [agree.timeout late,FailureClassifier.refine_timeout]

theorem agree_override (deadlineExceeded cancelledByRun : Bool) (timeoutMs : Int) (reason : Bytes) (result : TestResult)
    (agree : deadlineExceeded = false → cancelledByRun = false → Agree result.status result.failureCategory) :
    Agree (overrideVerdictForCancellation deadlineExceeded cancelledByRun timeoutMs reason result).status
      (overrideVerdictForCancellation deadlineExceeded cancelledByRun timeoutMs reason result).failureCategory := by
  cases deadlineExceeded with
  | true => exact agree_timeout
  | false =>
    cases cancelledByRun with
    | true => exact agree_skipped
    | false => exact agree rfl rfl

theorem agree_refineFailure (result : TestResult) (agree : Agree result.status result.failureCategory) :
    Agree (refineFailure result).status (refineFailure result).failureCategory := by
  unfold refineFailure
  split
  · next failing => exact agree_refine _ _ _ agree failing
  · exact agree

/-- An error without a category gets one of what is recorded. -/
theorem agree_refineFailure_error (result : TestResult) (error : result.status = .error)
    (recorded : FailureClassifier.signals result.metadata ≠ []) :
    Agree (refineFailure result).status (refineFailure result).failureCategory := by
  have failing : result.status.isFailure = true := by
    rw [error]
    rfl
  rw [refineFailure_status,error,refineFailure,if_pos failing]
  exact agree_error _ (FailureClassifier.refine_signals _ _ recorded)

/-- The verdict on a body that ended, and the verdict on a deadline. -/
theorem agree_verdict (base : TestResult) (bare : base.metadata = .object []) (record : BodyRecord)
    (explained : ¬record.Unexplained) (deadlineExceeded cancelledByRun : Bool) (timeoutMs : Int)
    (reason : Bytes) (attempt : Nat) :
    Agree (verdict base record deadlineExceeded cancelledByRun timeoutMs reason attempt).status
      (verdict base record deadlineExceeded cancelledByRun timeoutMs reason attempt).failureCategory := by
  simp only [verdict]
  by_cases vague : ∃ inSetUp what, record.outcome = .threw inSetUp (.testForgeError what .none)
  · have recorded : FailureClassifier.signals record.metadata ≠ [] := fun none => explained ⟨vague,none⟩
    obtain ⟨inSetUp,what,outcome⟩ := vague
    have error : executeBody base record.outcome =
        { base with status := .error, failureCategory := .none, errorMessage := what.takeWhile (· ≠ 10)
                    errorDetail := if 10 ∈ what then what else [] } := by
      rw [outcome]
      simp [executeBody,FailureClassifier.classify,FailureClassifier.describe]
    rw [error]
    cases deadlineExceeded with
    | true => exact agree_refineFailure (applyContextOutput record _) agree_timeout
    | false =>
      cases cancelledByRun with
      | true => exact agree_refineFailure (applyContextOutput record _) agree_skipped
      | false =>
        have untouched (result : TestResult) :
            overrideVerdictForCancellation false false timeoutMs reason result = result := rfl
        rw [untouched]
        refine agree_refineFailure_error (applyContextOutput record _) rfl ?_
        simpa only [applyContextOutput,bare,BodyRecord.metadata] using recorded
  · have plain : ∀ inSetUp what, record.outcome ≠ .threw inSetUp (.testForgeError what .none) :=
      fun inSetUp what same => vague ⟨inSetUp,what,same⟩
    refine agree_refineFailure (applyContextOutput record _) ?_
    exact agree_override _ _ _ _ _ fun _ _ => agree_executeBody base record.outcome plain

/-! ### Every result that is returned -/

namespace Runner

/-- The runner, and for each test whether the deadline of its last attempt passed before its body
was seen to have ended. -/
structure Timed where
  runner : State := initial
  late : Nat → Bool := fun _ => false

def lateAfter (action : TaskAction) (late : Bool) : Bool :=
  match action with
  | .enter _ => false
  | .deadline => true
  | _ => late

def timedStep (plan : Plan) (action : Action) (t : Timed) : Option Timed :=
  (step plan action t.runner).map fun runner =>
    match action with
    | .task i action => { runner, late := Function.update t.late i (lateAfter action (t.late i)) }
    | _ => { t with runner }

/-- What is known of a result, and before there is one of the deadline. -/
def Phase.Judged (late : Bool) : Phase → Prop
  | .creating _ | .registering _ | .checking _ | .starting _ => late = false
  | .running _ watch => late = true → watch = .grace
  | .ended _ record watch => ¬record.Unexplained ∧ (late = true → watch = .grace)
  | .leaving _ result | .returned _ result =>
    Agree result.status result.failureCategory ∧ (late = true → result.status = .timeout)
  | _ => True

variable {plan : Plan} {s : State} {i : Nat} {source phase : Phase} {action : TaskAction} {effect : Effect} {late : Bool}

theorem TaskMove.judged (move : TaskMove plan s i source action phase effect)
    (explained : ∀ record, action = .bodyEnds record → ¬record.Unexplained)
    (judged : source.Judged late) : phase.Judged (lateAfter action late) := by
  cases move with
  | disabled k stamp off => exact ⟨agree_skipped,nofun⟩
  | nothing k stamp =>
    refine ⟨agree_error .frameworkError (by simp),fun exceeded => ?_⟩
    exact absurd (judged.symm.trans exceeded) Bool.false_ne_true
  | refused k stamp reason cancelled =>
    exact ⟨agree_skipped,fun exceeded => absurd (judged.symm.trans exceeded) Bool.false_ne_true⟩
  | startBody k => exact fun exceeded => absurd (judged.symm.trans exceeded) Bool.false_ne_true
  | bodyEnds k watch record => exact ⟨explained record rfl,judged⟩
  | forward => exact judged
  | lateForward => exact judged
  | deadline k => exact fun _ => rfl
  | lateDeadline k record => exact ⟨judged.1,fun _ => rfl⟩
  | abandon | lateAbandon => exact ⟨agree_timeout,fun _ => rfl⟩
  | verdict k record watch stamp =>
    obtain ⟨known,grace⟩ := judged
    refine ⟨agree_verdict _ rfl record known _ _ _ _ _,fun exceeded => ?_⟩
    obtain rfl := grace exceeded
    exact verdict_status (base plan s i k stamp) record true ((s.sources ⟨i,k⟩).isSome && !true) (plan.timeoutMs i)
      (s.runCancellation.getD []) k
  | leave k result free => exact judged
  | enter | made | register | passed => first | exact judged | rfl
  | _ => trivial

theorem timed_judged (labels : List Action)
    (explained : ∀ i record, .task i (.bodyEnds record) ∈ labels → ¬record.Unexplained)
    (t : Timed) (path : Transition.run (timedStep plan) labels {} = some t) :
    Sound plan t.runner ∧ ∀ i, (t.runner.tasks i).Judged (t.late i) := by
  have along := (Transition.along_of_forall (timedStep plan) (fun _ _ => True) labels {} fun _ _ _ => trivial).and_mem
  refine Transition.run_invariant_along (timedStep plan) (fun _ action => True ∧ action ∈ labels)
    (fun t => Sound plan t.runner ∧ ∀ i, (t.runner.tasks i).Judged (t.late i)) ?_ labels {} t along path
    ⟨.initial plan,fun _ => trivial⟩
  intro action t next valid permitted taken
  obtain ⟨runner,moved,rfl⟩ := Option.map_eq_some_iff.mp taken
  obtain ⟨sound,judged⟩ := valid
  refine ⟨by cases action <;> exact sound.step moved,fun j => ?_⟩
  have still (apart : ∀ i task, action ≠ .task i task) : (runner.tasks j).Judged (t.late j) := by
    rcases (other_tasks sound.control apart moved).2 j with same | ⟨-,fresh⟩
    · exact same ▸ judged j
    · exact fresh ▸ trivial
  cases action with
  | task i action =>
    cases step_move moved with
    | main _ main move => cases move
    | task _ _ phase effect move =>
    simp only [State.setPhase_tasks]
    by_cases mine : j = i
    · subst mine
      rw [Function.update_self,Function.update_self]
      exact move.judged (fun record ends => explained j record (ends ▸ permitted.2)) (judged j)
    · rw [Function.update_of_ne mine,Function.update_of_ne mine,State.apply_tasks]
      exact judged j
  | _ => exact still (by simp)

/-- Unless a body throws a `TestForgeError` of category none with nothing to explain it: the category of a returned
result is none exactly when the status is passed or skipped, a timeout is in the category of timeouts, and an
exceeded deadline is a timeout. A second classification makes no category vaguer, and a third one would change
nothing. -/
theorem verdicts_consistent (plan : Plan) (labels : List Action)
    (explained : ∀ i record, .task i (.bodyEnds record) ∈ labels → ¬record.Unexplained)
    (t : Timed) (path : Transition.run (timedStep plan) labels {} = some t) :
    (∀ i k result, t.runner.tasks i = .returned k result →
      (result.status = .passed ∨ result.status = .skipped ↔ result.failureCategory = .none) ∧
      (result.status = .timeout → result.failureCategory = .timeout) ∧
      (t.late i = true → result.status = .timeout)) ∧
    ∀ base metadata, FailureClassifier.specificity base ≤
        FailureClassifier.specificity (FailureClassifier.refine base metadata) ∧
      FailureClassifier.refine (FailureClassifier.refine base metadata) metadata =
        FailureClassifier.refine base metadata := by
  refine ⟨fun i k result returned => ?_,fun base metadata =>
    ⟨FailureClassifier.specificity_le_refine base metadata,FailureClassifier.refine_refine base metadata⟩⟩
  have judged := (timed_judged labels explained t path).2 i
  rw [returned] at judged
  exact ⟨judged.1.none_iff,judged.1.timeout,judged.2⟩

/-- The body throws in the grace period. -/
def graceRun (body : BodyRecord) : List Action :=
  [.start none,.call,.task 0 .begin,.task 0 (.observerStarted none),.task 0 (.enter {}),.task 0 (.create .made {}),
    .task 0 .register,.task 0 (.check {}),.task 0 .startBody,.task 0 .deadline,
    .task 0 (.bodyEnds body),.task 0 (.verdict {}),.task 0 .leave]

theorem mem_graceRun {body record : BodyRecord} {i : Nat} (member : .task i (.bodyEnds record) ∈ graceRun body) :
    record = body := by
  simp only [graceRun,List.mem_cons,reduceCtorEq,Action.task.injEq,TaskAction.bodyEnds.injEq,and_false,false_or,
    or_false,List.not_mem_nil] at member
  exact member.2

def Phase.returnedResult : Phase → Option TestResult
  | .returned _ result => some result
  | _ => none

def resetBody : BodyRecord where
  outcome := .threw false (ForgeException.networkError (ascii "connection reset")).thrown

theorem verdicts_consistent_graceRun : ∃ t k result, Transition.run (timedStep oneTest) (graceRun resetBody) {} = some t ∧
    t.runner.tasks 0 = .returned k result ∧ t.late 0 = true ∧ result.status = .timeout ∧
      result.failureCategory = .timeout := by
  have ends : (Transition.run (timedStep oneTest) (graceRun resetBody) {}).map
      (fun t => ((t.runner.tasks 0).returnedResult.isSome,t.late 0)) = some (true,true) := by decide +kernel
  obtain ⟨t,path,found⟩ := Option.map_eq_some_iff.mp ends
  obtain ⟨there,late⟩ := Prod.mk.inj found
  have explained : ∀ i record, .task i (.bodyEnds record) ∈ graceRun resetBody → ¬record.Unexplained := by
    intro i record member
    rw [mem_graceRun member]
    exact ForgeException.explained _ _
  have verdicts := (verdicts_consistent oneTest (graceRun resetBody) explained t path).1
  generalize phase : t.runner.tasks 0 = here at there
  cases here with
  | returned k result =>
    obtain ⟨-,timeout,exceeded⟩ := verdicts 0 k result phase
    exact ⟨t,k,result,path,phase,late,exceeded late,timeout (exceeded late)⟩
  | _ => cases there

/-- The body throws `TestForgeError("x", FailureCategory::None)`. -/
def vagueRun : List Action :=
  [.start none,.call,.task 0 .begin,.task 0 (.observerStarted none),.task 0 (.enter {}),.task 0 (.create .made {}),
    .task 0 .register,.task 0 (.check {}),.task 0 .startBody,
    .task 0 (.bodyEnds { outcome := .threw false (.testForgeError (ascii "x") .none) }),.task 0 (.verdict {}),
    .task 0 .leave]

/-- An error whose category says that the test passed. -/
theorem vagueError_none : ¬∀ (plan : Plan) (labels : List Action) (t : Timed),
    Transition.run (timedStep plan) labels {} = some t → ∀ i k result, t.runner.tasks i = .returned k result →
      (result.status = .passed ∨ result.status = .skipped ↔ result.failureCategory = .none) := by
  intro holds
  have ends : (Transition.run (timedStep oneTest) vagueRun {}).map
      (fun t => (t.runner.tasks 0).returnedResult.map fun result => (result.status,result.failureCategory)) =
        some (some (.error,.none)) := by decide +kernel
  obtain ⟨t,path,found⟩ := Option.map_eq_some_iff.mp ends
  obtain ⟨result,there,shown⟩ := Option.map_eq_some_iff.mp found
  obtain ⟨error,none⟩ := Prod.mk.inj shown
  generalize phase : t.runner.tasks 0 = here at there
  cases here with
  | returned k judged =>
    cases there
    have agree := holds oneTest vagueRun t path 0 k _ phase
    rw [error,none] at agree
    exact absurd (agree.mpr rfl) (by decide)
  | _ => cases there

end Runner
end TestForge
