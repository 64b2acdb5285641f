import TestForge.FailureClassifier

/-! How one attempt of a test becomes a result: the exits of `runOne` as functions of
what the attempt saw. -/
namespace TestForge

open Json Strings

structure TestMetadata where
  name : Bytes
  suite : Bytes := []
  description : Bytes := []
  tags : List Bytes := []
  timeoutMs : Int := 0
  enabled : Bool := true
  disabledReason : Bytes := []
  owner : Bytes := []
  sourceFile : Bytes := []
  sourceLine : Int := 0
  deriving DecidableEq, Repr

def TestMetadata.qualifiedName (metadata : TestMetadata) : Bytes :=
  TestForge.qualifiedName metadata.suite metadata.name

/-- The clock readings of an attempt. -/
structure Stamp where
  start : TimePoint := 0
  finish : TimePoint := 0
  elapsed : Int := 0

/-- How the body of a test came to its end. -/
inductive BodyEnd where
  | returned
  | threw (inSetUp : Bool) (thrown : Thrown)
  deriving DecidableEq, Repr

/-- What an ended body leaves in its bundle: its end, its log tail, and what it
recorded through its context. -/
structure BodyRecord where
  outcome : BodyEnd
  logs : List Bytes := []
  collectedMetadata : List (Bytes × Value) := []
  extraTags : List Bytes := []
  notes : List Bytes := []

def attemptResult (metadata : TestMetadata) (runId worker : Bytes) (attempt : Nat)
    (stamp : Stamp) : TestResult :=
  { TestResult.make metadata.suite metadata.name .error stamp.start with
    runId, attempt, tags := metadata.tags, worker }

def finish (stamp : Stamp) (result : TestResult) : TestResult :=
  { result with endTime := stamp.finish, duration := stamp.elapsed }

def disabledResult (metadata : TestMetadata) (result : TestResult) : TestResult :=
  { result with
    status := .skipped
    failureCategory := .none
    errorMessage := if metadata.disabledReason = [] then ascii "test is disabled"
      else metadata.disabledReason }

def nothingProduced (result : TestResult) : TestResult :=
  { result with
    status := .error
    failureCategory := .frameworkError
    errorMessage := ascii "test is registered but its factory produced nothing" }

def notRun (runReason : Bytes) (result : TestResult) : TestResult :=
  { result with
    status := .skipped
    failureCategory := .none
    errorMessage := ascii "not run: " ++ runReason
    metadata := result.metadata.set (ascii "run_cancelled") (.bool true) }

def executeBody (result : TestResult) : BodyEnd → TestResult
  | .returned => { result with status := .passed, failureCategory := .none }
  | .threw inSetUp thrown =>
    let classification := FailureClassifier.classify thrown
    let result := { result with
      status := classification.status
      failureCategory := classification.category
      errorMessage := classification.message
      errorDetail := classification.detail }
    -- the second catch clause of the source has no such correction, but no
    -- exception it sees is classified FAILED
    if inSetUp ∧ result.status = .failed then
      { result with
        status := .error
        errorDetail := ascii "failure occurred during setUp\n" ++ result.errorDetail }
    else result

def describeAbandonedTest (timeoutMs : Int) (attempt : Nat) (result : TestResult) : TestResult :=
  { result with
    status := .timeout
    failureCategory := .timeout
    errorMessage := ascii "test exceeded its " ++ decimalInt timeoutMs ++
      ascii "ms deadline and did not respond to cancellation"
    errorDetail :=
      ascii "The test body is still running on a background thread. TestForge never forcibly " ++
      ascii "terminates a thread (see docs/concurrency.md), so the thread is left to finish and " ++
      ascii "is reported again at shutdown. Make the test cooperative by calling " ++
      ascii "ctx.throwIfCancelled() inside its loops, or ctx.sleepFor() instead of " ++
      ascii "std::this_thread::sleep_for."
    metadata := (((result.metadata.set (ascii "timeout_ms") (.int timeoutMs)).set
      (ascii "attempt") (.int attempt)).set (ascii "deadline_exceeded") (.bool true)).set
      (ascii "abandoned_thread") (.bool true) }

def overrideVerdictForCancellation (deadlineExceeded cancelledByRun : Bool) (timeoutMs : Int)
    (runCancellationReason : Bytes) (result : TestResult) : TestResult :=
  if deadlineExceeded then
    let unwoundCleanly := result.status = .timeout
    { result with
      status := .timeout
      failureCategory := .timeout
      errorMessage := if unwoundCleanly then result.errorMessage
        else ascii "test exceeded its " ++ decimalInt timeoutMs ++
          ascii "ms deadline and only finished during the cancellation grace period"
      errorDetail := if unwoundCleanly then result.errorDetail
        else
          ascii "The test did not observe cancellation and ran to completion after the deadline " ++
          ascii "had already passed. Add a ctx.throwIfCancelled() checkpoint, or use " ++
          ascii "ctx.sleepFor() instead of std::this_thread::sleep_for, so it can stop when " ++
          ascii "asked. See docs/concurrency.md."
      metadata := (result.metadata.set (ascii "deadline_exceeded") (.bool true)).set
        (ascii "finished_in_grace_period") (.bool true) }
  else if cancelledByRun then
    { result with
      status := .skipped
      failureCategory := .none
      errorMessage := ascii "cancelled: " ++ runCancellationReason
      errorDetail :=
        ascii "The run was cancelled while this test was executing, so its outcome was discarded " ++
        ascii "rather than recorded as a pass or a failure."
      metadata := result.metadata.set (ascii "run_cancelled") (.bool true) }
  else result

def applyContextOutput (record : BodyRecord) (result : TestResult) : TestResult :=
  { result with
    metadata := record.collectedMetadata.foldl
      (fun metadata member => metadata.set member.1 member.2) result.metadata
    tags := record.extraTags.foldl
      (fun tags tag => if tag ∈ tags then tags else tags ++ [tag]) result.tags
    errorDetail := result.errorDetail ++ record.notes.flatMap (ascii "\n  note: " ++ ·) }

def refineFailure (result : TestResult) : TestResult :=
  if result.status.isFailure then
    { result with failureCategory := FailureClassifier.refine result.failureCategory result.metadata }
  else result

/-- The result of an attempt whose body has ended. -/
def verdict (base : TestResult) (record : BodyRecord) (deadlineExceeded cancelledByRun : Bool)
    (timeoutMs : Int) (runReason : Bytes) (attempt : Nat) : TestResult :=
  let result := { executeBody base record.outcome with
    logs := record.logs
    worker := base.worker
    attempt := attempt }
  let result := refineFailure (applyContextOutput record
    (overrideVerdictForCancellation deadlineExceeded cancelledByRun timeoutMs runReason result))
  { result with
    metadata := (result.metadata.set (ascii "timeout_ms") (.int timeoutMs)).set
      (ascii "attempt") (.int attempt) }

/-- The result is about this test. -/
structure Names (metadata : TestMetadata) (result : TestResult) : Prop where
  suite : result.suiteName = metadata.suite
  name : result.testName = metadata.name
  id : result.testId = Ids.testId metadata.suite metadata.name

section Names

variable {metadata : TestMetadata} {result : TestResult}

theorem Names.qualifiedName (names : Names metadata result) :
    result.qualifiedName = metadata.qualifiedName := by
  rw [TestResult.qualifiedName,names.suite,names.name]
  rfl

theorem names_attemptResult (metadata : TestMetadata) (runId worker : Bytes) (attempt : Nat)
    (stamp : Stamp) : Names metadata (attemptResult metadata runId worker attempt stamp) :=
  ⟨rfl,rfl,rfl⟩

theorem Names.finish (names : Names metadata result) (stamp : Stamp) :
    Names metadata (finish stamp result) := ⟨names.suite,names.name,names.id⟩

theorem Names.disabled (names : Names metadata result) (about : TestMetadata) :
    Names metadata (disabledResult about result) := ⟨names.suite,names.name,names.id⟩

theorem Names.nothing (names : Names metadata result) : Names metadata (nothingProduced result) :=
  ⟨names.suite,names.name,names.id⟩

theorem Names.notRun (names : Names metadata result) (reason : Bytes) :
    Names metadata (notRun reason result) := ⟨names.suite,names.name,names.id⟩

theorem Names.abandoned (names : Names metadata result) (timeoutMs : Int) (attempt : Nat) :
    Names metadata (describeAbandonedTest timeoutMs attempt result) :=
  ⟨names.suite,names.name,names.id⟩

theorem Names.executeBody (names : Names metadata result) (outcome : BodyEnd) :
    Names metadata (executeBody result outcome) := by
  cases outcome with
  | returned => exact ⟨names.suite,names.name,names.id⟩
  | threw inSetUp thrown =>
    simp only [TestForge.executeBody]
    split <;> exact ⟨names.suite,names.name,names.id⟩

theorem Names.override (names : Names metadata result) (deadlineExceeded cancelledByRun : Bool)
    (timeoutMs : Int) (reason : Bytes) : Names metadata
      (overrideVerdictForCancellation deadlineExceeded cancelledByRun timeoutMs reason result) := by
  unfold overrideVerdictForCancellation
  split
  · exact ⟨names.suite,names.name,names.id⟩
  split
  · exact ⟨names.suite,names.name,names.id⟩
  · exact names

theorem Names.refineFailure (names : Names metadata result) :
    Names metadata (refineFailure result) := by
  unfold TestForge.refineFailure
  split
  · exact ⟨names.suite,names.name,names.id⟩
  · exact names

theorem Names.verdict (names : Names metadata result) (record : BodyRecord)
    (deadlineExceeded cancelledByRun : Bool) (timeoutMs : Int) (reason : Bytes) (attempt : Nat) :
    Names metadata
      (verdict result record deadlineExceeded cancelledByRun timeoutMs reason attempt) := by
  have ended := names.executeBody record.outcome
  have logged : Names metadata { TestForge.executeBody result record.outcome with
      logs := record.logs, worker := result.worker, attempt := attempt } :=
    ⟨ended.suite,ended.name,ended.id⟩
  have overridden := logged.override deadlineExceeded cancelledByRun timeoutMs reason
  have applied : Names metadata (applyContextOutput record _) :=
    ⟨overridden.suite,overridden.name,overridden.id⟩
  have refined := applied.refineFailure
  exact ⟨refined.suite,refined.name,refined.id⟩

end Names

/-- The status a body ends with before any override. -/
def bodyStatus (outcome : BodyEnd) : TestStatus := (executeBody {} outcome).status

theorem executeBody_status (result : TestResult) (outcome : BodyEnd) :
    (executeBody result outcome).status = bodyStatus outcome := by
  cases outcome with
  | returned => rfl
  | threw inSetUp thrown =>
    simp only [executeBody,bodyStatus]
    split <;> rfl

theorem refineFailure_status (result : TestResult) :
    (refineFailure result).status = result.status := by
  unfold refineFailure
  split <;> rfl

theorem verdict_status (base : TestResult) (record : BodyRecord)
    (deadlineExceeded cancelledByRun : Bool) (timeoutMs : Int) (reason : Bytes) (attempt : Nat) :
    (verdict base record deadlineExceeded cancelledByRun timeoutMs reason attempt).status =
      if deadlineExceeded then .timeout
      else if cancelledByRun then .skipped
      else bodyStatus record.outcome := by
  rw [← executeBody_status base]
  simp only [verdict,refineFailure_status,applyContextOutput,overrideVerdictForCancellation]
  cases deadlineExceeded <;> cases cancelledByRun <;> rfl

end TestForge
