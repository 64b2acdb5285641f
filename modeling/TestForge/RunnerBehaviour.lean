import TestForge.RunnerProgress

/-! What user code does in a run, as a function of test and attempt, and what such a
run has to return whatever the interleaving is. -/
namespace TestForge.Runner

open Json Strings

/-- When a bounded body ends: before its deadline, in the grace period, or too late. -/
inductive Timing where
  | inTime | inGrace | never
  deriving DecidableEq, Repr

/-- Factories, bodies and observers. An observer of the runner stands for all of them:
the first one that throws keeps the others from being called. -/
structure Behaviour where
  runStarted : Option Escape := none
  testStarted : Nat → Option Escape := fun _ => none
  create : Nat → Nat → Creation := fun _ _ => .made
  body : Nat → Nat → BodyRecord
  timing : Nat → Nat → Timing := fun _ _ => .inTime
  testFinished : Nat → Option Escape := fun _ => none
  runFinished : Option Escape := none

/-- A body that runs inline is not timed. -/
def Watch.EndsAs : Watch → Timing → Prop
  | .inline, _ => True
  | .polling, timing => timing = .inTime
  | .grace, timing => timing = .inGrace

/-- User code behaves as described, and nobody asks for a cancellation. The choice
between the workers is free. -/
def Conforms (behaviour : Behaviour) (s : State) : Action → Prop
  | .start escape => escape = behaviour.runStarted
  | .close escape => escape = behaviour.runFinished
  | .request _ => False
  | .task i (.observerStarted escape) => escape = behaviour.testStarted i
  | .task i (.observerFinished escape) => escape = behaviour.testFinished i
  | .task i (.create creation _) => ∀ k, s.tasks i = .creating k → creation = behaviour.create i k
  | .task i (.bodyEnds record) => ∀ k watch, s.tasks i = .running k watch →
      record = behaviour.body i k ∧ watch.EndsAs (behaviour.timing i k)
  | .task i .deadline => ∀ k, (s.tasks i).registered = some k → behaviour.timing i k ≠ .inTime
  | .task i (.abandon _) => ∀ k, (s.tasks i).registered = some k → behaviour.timing i k = .never
  | _ => True

theorem Conforms.unprompted (behaviour : Behaviour) (s : State) (action : Action)
    (conforms : Conforms behaviour s action) : Unprompted s action := by
  rintro reason rfl
  exact conforms

section Answer

variable (plan : Plan) (behaviour : Behaviour) (i k : Nat)

/-- What attempt `k` comes to, but for worker and clock. -/
def answer : TestResult :=
  let base := attemptResult (plan.test i) plan.opened.runId [] k {}
  if (plan.test i).enabled then
    match behaviour.create i k with
    | .made =>
      if plan.bounded i ∧ behaviour.timing i k = .never then
        describeAbandonedTest (plan.timeoutMs i) k base
      else
        verdict base (behaviour.body i k) (plan.bounded i && behaviour.timing i k == .inGrace) false
          (plan.timeoutMs i) [] k
    | .nothing => nothingProduced base
    | .threw _ => base
  else disabledResult (plan.test i) base

/-- The attempt at which the loop of `executeWithRetries` stops, from attempt `k` on. -/
def lastAttempt : Nat → Nat → Nat
  | 0, k => k
  | fuel + 1, k => if retried plan k (answer plan behaviour i k) then lastAttempt fuel (k + 1) else k

def attempts : Nat := lastAttempt plan behaviour i (plan.maxAttempts - 1) 1
def outcome : TestStatus := (answer plan behaviour i (attempts plan behaviour i)).status

/-- Neither `onTestStarted` nor the factory throws on the way to a result. -/
structure Delivered : Prop where
  notified : behaviour.testStarted i = none
  created : (plan.test i).enabled = true → ∀ k, 1 ≤ k → k ≤ attempts plan behaviour i →
    ∀ escape, behaviour.create i k ≠ .threw escape

end Answer

/-- No exception of user code gets in the way of a run. The pool swallows what comes out
of `onTestFinished`, but for what is not a `std::exception`. -/
structure Fine (plan : Plan) (behaviour : Behaviour) : Prop where
  started : behaviour.runStarted = none
  finished : behaviour.runFinished = none
  delivered : ∀ i < plan.size, Delivered plan behaviour i
  handled : ∀ i < plan.size, behaviour.testFinished i = none ∨
    plan.sequential = false ∧ behaviour.testFinished i = some .stdException

/-- The same for any number of workers, so that nothing is left to the pool. -/
structure Untroubled (plan : Plan) (behaviour : Behaviour) : Prop where
  started : behaviour.runStarted = none
  finished : behaviour.runFinished = none
  delivered : ∀ i < plan.size, Delivered plan behaviour i
  handled : ∀ i < plan.size, behaviour.testFinished i = none

/-- What a run returns about a test. -/
structure Account where
  suite : Bytes
  name : Bytes
  id : Bytes
  status : TestStatus
  deriving DecidableEq

def Account.of (result : TestResult) : Account :=
  ⟨result.suiteName,result.testName,result.testId,result.status⟩

def account (plan : Plan) (behaviour : Behaviour) (i : Nat) : Account :=
  ⟨(plan.test i).suite,(plan.test i).name,Ids.testId (plan.test i).suite (plan.test i).name,
    outcome plan behaviour i⟩

/-- One result for every selected test, with the status its attempts come to; and
nobody is told that all is well otherwise. -/
structure Complete (plan : Plan) (behaviour : Behaviour) (run : TestRun) : Prop where
  results : (run.results.map Account.of).Perm ((List.range plan.size).map (account plan behaviour))
  clean : run.exitCode = 0 → ∀ i < plan.size,
    outcome plan behaviour i = .passed ∨ outcome plan behaviour i = .skipped

def Plan.withWorkers (plan : Plan) (workers : Int) : Plan :=
  { plan with options := { plan.options with workers } }

/-- Some run under the behaviour returns the record. -/
def Returns (plan : Plan) (behaviour : Behaviour) (run : TestRun) : Prop :=
  ∃ labels s, Transition.Along (step plan) (Conforms behaviour) labels initial ∧
    Transition.run (step plan) labels initial = some s ∧ s.main = .returned run

/-- Every run under the behaviour, however it is scheduled, comes to an end, and the
end is that it returns. What it returns is complete. -/
structure Answered (plan : Plan) (behaviour : Behaviour) : Prop where
  ends : ∃ bound, ∀ labels s, Transition.Along (step plan) (Conforms behaviour) labels initial →
    Transition.run (step plan) labels initial = some s → labels.length ≤ bound
  returns : ∀ labels s, Transition.Along (step plan) (Conforms behaviour) labels initial →
    Transition.run (step plan) labels initial = some s →
    Transition.Settled (step plan) (Conforms behaviour) s → ∃ run, s.main = .returned run
  complete : ∀ run, Returns plan behaviour run → Complete plan behaviour run

/-- The plan is answered, also with any other number of workers, and the answers agree. -/
structure Accounted (plan : Plan) (behaviour : Behaviour) : Prop where
  answered : Answered plan behaviour
  others : ∀ workers, Answered (plan.withWorkers workers) behaviour
  agrees : ∀ run workers other, Returns plan behaviour run →
    Returns (plan.withWorkers workers) behaviour other →
    (other.results.map fun result => (result.testId,result.status)).Perm
      (run.results.map fun result => (result.testId,result.status))

section LastAttempt

variable (plan : Plan) (behaviour : Behaviour) (i : Nat)

theorem le_lastAttempt (fuel k : Nat) : k ≤ lastAttempt plan behaviour i fuel k := by
  induction fuel generalizing k with
  | zero => exact Nat.le_refl k
  | succ fuel ih =>
    simp only [lastAttempt]
    split
    · exact Nat.le_trans (Nat.le_succ k) (ih (k + 1))
    · exact Nat.le_refl k

/-- An attempt that is the first not to be retried is the last one. -/
theorem lastAttempt_eq (fuel k m : Nat) (above : k ≤ m) (enough : plan.maxAttempts ≤ k + fuel)
    (before : ∀ n, k ≤ n → n < m → retried plan n (answer plan behaviour i n) = true)
    (last : retried plan m (answer plan behaviour i m) = false) :
    lastAttempt plan behaviour i fuel k = m := by
  induction fuel generalizing k with
  | zero =>
    rcases Nat.eq_or_lt_of_le above with rfl | below
    · rfl
    · have again := before k (Nat.le_refl k) below
      simp only [retried,Bool.and_eq_true,decide_eq_true_eq] at again
      omega
  | succ fuel ih =>
    rcases Nat.eq_or_lt_of_le above with rfl | below
    · simp [lastAttempt,last]
    · rw [lastAttempt,if_pos (before k (Nat.le_refl k) below)]
      exact ih (k + 1) below (by omega) fun n above => before n (by omega)

/-- As long as every attempt is to be retried, the last one is not passed. -/
theorem le_lastAttempt_of_retried (fuel k m : Nat) (above : k ≤ m)
    (inside : m ≤ k + fuel)
    (before : ∀ n, k ≤ n → n < m → retried plan n (answer plan behaviour i n) = true) :
    m ≤ lastAttempt plan behaviour i fuel k := by
  induction fuel generalizing k with
  | zero => simpa [lastAttempt] using inside
  | succ fuel ih =>
    rcases Nat.eq_or_lt_of_le above with rfl | below
    · exact le_lastAttempt plan behaviour i (fuel + 1) k
    · rw [lastAttempt,if_pos (before k (Nat.le_refl k) below)]
      exact ih (k + 1) below (by omega) fun n above => before n (by omega)

theorem lastAttempt_withWorkers (workers : Int) (fuel k : Nat) :
    lastAttempt (plan.withWorkers workers) behaviour i fuel k = lastAttempt plan behaviour i fuel k := by
  induction fuel generalizing k with
  | zero => rfl
  | succ fuel ih =>
    rw [lastAttempt,lastAttempt,ih]
    rfl

theorem attempts_withWorkers (workers : Int) :
    attempts (plan.withWorkers workers) behaviour i = attempts plan behaviour i :=
  lastAttempt_withWorkers plan behaviour i workers _ 1

theorem account_withWorkers (workers : Int) :
    account (plan.withWorkers workers) behaviour i = account plan behaviour i := by
  simp only [account,outcome,attempts_withWorkers]
  rfl

theorem Delivered.withWorkers {plan : Plan} {behaviour : Behaviour} {i : Nat} (workers : Int)
    (delivered : Delivered plan behaviour i) : Delivered (plan.withWorkers workers) behaviour i :=
  ⟨delivered.notified,fun enabled k above below =>
    delivered.created enabled k above (attempts_withWorkers plan behaviour i workers ▸ below)⟩

end LastAttempt

theorem Untroubled.fine {plan : Plan} {behaviour : Behaviour} (untroubled : Untroubled plan behaviour) :
    Fine plan behaviour :=
  ⟨untroubled.started,untroubled.finished,untroubled.delivered,fun i inside => .inl (untroubled.handled i inside)⟩

theorem Untroubled.withWorkers {plan : Plan} {behaviour : Behaviour} (workers : Int)
    (untroubled : Untroubled plan behaviour) : Untroubled (plan.withWorkers workers) behaviour :=
  ⟨untroubled.started,untroubled.finished,fun i inside => (untroubled.delivered i inside).withWorkers workers,
    untroubled.handled⟩

theorem Fine.untroubled {plan : Plan} {behaviour : Behaviour} (fine : Fine plan behaviour)
    (single : Fine (plan.withWorkers 1) behaviour) : Untroubled plan behaviour := by
  refine ⟨fine.started,fine.finished,fine.delivered,fun i inside => ?_⟩
  rcases single.handled i inside with untroubled | ⟨pooled,_⟩
  · exact untroubled
  · have sequential : (plan.withWorkers 1).sequential = true := rfl
    simp [sequential] at pooled

/-- Results that differ in worker and clock only, as far as a retry can tell. -/
structure Alike (first second : TestResult) : Prop where
  status : first.status = second.status
  category : first.failureCategory = second.failureCategory
  metadata : first.metadata = second.metadata

section Alike

variable {first second : TestResult}

theorem Alike.finish (alike : Alike first second) (stamp : Stamp) :
    Alike (finish stamp first) second := ⟨alike.status,alike.category,alike.metadata⟩

theorem Alike.disabled (alike : Alike first second) (about : TestMetadata) :
    Alike (disabledResult about first) (disabledResult about second) := ⟨rfl,rfl,alike.metadata⟩

theorem Alike.nothing (alike : Alike first second) :
    Alike (nothingProduced first) (nothingProduced second) := ⟨rfl,rfl,alike.metadata⟩

theorem Alike.abandoned (alike : Alike first second) (timeoutMs : Int) (attempt : Nat) :
    Alike (describeAbandonedTest timeoutMs attempt first)
      (describeAbandonedTest timeoutMs attempt second) :=
  ⟨rfl,rfl,by simp only [describeAbandonedTest,alike.metadata]⟩

theorem Alike.executeBody (alike : Alike first second) (outcome : BodyEnd) :
    Alike (executeBody first outcome) (executeBody second outcome) := by
  cases outcome with
  | returned => exact ⟨rfl,rfl,alike.metadata⟩
  | threw inSetUp thrown =>
    simp only [TestForge.executeBody]
    split <;> exact ⟨rfl,rfl,alike.metadata⟩

theorem Alike.override (alike : Alike first second) (deadlineExceeded : Bool) (timeoutMs : Int)
    (reason : Bytes) :
    Alike (overrideVerdictForCancellation deadlineExceeded false timeoutMs reason first)
      (overrideVerdictForCancellation deadlineExceeded false timeoutMs [] second) := by
  cases deadlineExceeded with
  | true => exact ⟨rfl,rfl,by simp only [overrideVerdictForCancellation,if_true,alike.metadata]⟩
  | false => exact alike

theorem Alike.refineFailure (alike : Alike first second) :
    Alike (refineFailure first) (refineFailure second) := by
  unfold TestForge.refineFailure
  rw [alike.status]
  split
  · exact ⟨rfl,by rw [alike.category,alike.metadata],alike.metadata⟩
  · exact alike

theorem Alike.verdict (alike : Alike first second) (record : BodyRecord) (deadlineExceeded : Bool)
    (timeoutMs : Int) (reason : Bytes) (attempt : Nat) :
    Alike (verdict first record deadlineExceeded false timeoutMs reason attempt)
      (verdict second record deadlineExceeded false timeoutMs [] attempt) := by
  have ended := alike.executeBody record.outcome
  have logged : Alike
      { TestForge.executeBody first record.outcome with
        logs := record.logs, worker := first.worker, attempt := attempt }
      { TestForge.executeBody second record.outcome with
        logs := record.logs, worker := second.worker, attempt := attempt } :=
    ⟨ended.status,ended.category,ended.metadata⟩
  have overridden := logged.override deadlineExceeded timeoutMs reason
  have applied : Alike (applyContextOutput record _) (applyContextOutput record _) :=
    ⟨overridden.status,overridden.category,by simp only [applyContextOutput,overridden.metadata]⟩
  have refined := applied.refineFailure
  exact ⟨refined.status,refined.category,by simp only [TestForge.verdict,refined.metadata]⟩

theorem Alike.retried (alike : Alike first second) (plan : Plan) (k : Nat) :
    retried plan k first = retried plan k second := by
  simp only [Runner.retried,alike.status,alike.category]

end Alike

theorem alike_base (plan : Plan) (s : State) (i k : Nat) (stamp : Stamp) :
    Alike (base plan s i k stamp) (attemptResult (plan.test i) plan.opened.runId [] k {}) :=
  ⟨rfl,rfl,rfl⟩

end TestForge.Runner
