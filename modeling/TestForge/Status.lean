import TestForge.Strings

/-! Verdicts of a test execution and the reasons behind them. -/
namespace TestForge

open Strings

inductive TestStatus where
  | passed | failed | skipped | error | timeout
  deriving DecidableEq, Repr

inductive FailureCategory where
  | none | assertionFailure | timeout | networkFailure | environmentFailure | resourceFailure
  | applicationFailure | dependencyFailure | configurationFailure | frameworkError | unknown
  deriving DecidableEq, Repr

namespace TestStatus

def toString : TestStatus → Bytes
  | .passed => ascii "PASSED"
  | .failed => ascii "FAILED"
  | .skipped => ascii "SKIPPED"
  | .error => ascii "ERROR"
  | .timeout => ascii "TIMEOUT"

def allTestStatuses : List TestStatus := [.passed,.failed,.skipped,.error,.timeout]

def fromString (text : Bytes) : Option TestStatus :=
  allTestStatuses.find? fun status => equalsIgnoreCase text status.toString

def isFailure (status : TestStatus) : Bool :=
  status == .failed || status == .error || status == .timeout

theorem fromString_toString (status : TestStatus) : fromString status.toString = some status := by
  cases status <;> decide

@[simp] theorem isFailure_eq_false (status : TestStatus) :
    status.isFailure = false ↔ status = .passed ∨ status = .skipped := by
  cases status <;> decide

end TestStatus

namespace FailureCategory

def toString : FailureCategory → Bytes
  | .none => ascii "NONE"
  | .assertionFailure => ascii "ASSERTION_FAILURE"
  | .timeout => ascii "TIMEOUT"
  | .networkFailure => ascii "NETWORK_FAILURE"
  | .environmentFailure => ascii "ENVIRONMENT_FAILURE"
  | .resourceFailure => ascii "RESOURCE_FAILURE"
  | .applicationFailure => ascii "APPLICATION_FAILURE"
  | .dependencyFailure => ascii "DEPENDENCY_FAILURE"
  | .configurationFailure => ascii "CONFIGURATION_FAILURE"
  | .frameworkError => ascii "FRAMEWORK_ERROR"
  | .unknown => ascii "UNKNOWN"

def allFailureCategories : List FailureCategory :=
  [.none,.assertionFailure,.timeout,.networkFailure,.environmentFailure,.resourceFailure,
    .applicationFailure,.dependencyFailure,.configurationFailure,.frameworkError,.unknown]

def fromString (text : Bytes) : Option FailureCategory :=
  allFailureCategories.find? fun category => equalsIgnoreCase text category.toString

theorem fromString_toString (category : FailureCategory) :
    fromString category.toString = some category := by
  cases category <;> decide

end FailureCategory
end TestForge
