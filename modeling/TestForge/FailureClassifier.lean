import TestForge.TestResult

/-! From a thrown exception, a message or a test's own metadata to a failure category. -/
namespace TestForge

open Json Strings

/-- An exception by the class the classifier can tell it by. `what` is its C string. -/
inductive Thrown where
  | skipTest (what : Bytes)
  | testCancelled (what : Bytes)
  | assertionFailure (what expression expected actual : Bytes) (location : Option Bytes)
  | testForgeError (what : Bytes) (category : FailureCategory)
  | badAlloc (what typeName : Bytes)
  | stdException (what typeName : Bytes)
  | other
  deriving DecidableEq, Repr

namespace FailureClassifier

structure Classification where
  status : TestStatus
  category : FailureCategory
  message : Bytes
  detail : Bytes

/-- The first match wins. -/
def messageSignals : List (Bytes × FailureCategory) := [
  (ascii "connection refused",.networkFailure),
  (ascii "connection reset",.networkFailure),
  (ascii "could not resolve",.networkFailure),
  (ascii "name or service not known",.networkFailure),
  (ascii "no route to host",.networkFailure),
  (ascii "network is unreachable",.networkFailure),
  (ascii "broken pipe",.networkFailure),
  (ascii "timed out",.timeout),
  (ascii "timeout",.timeout),
  (ascii "deadline exceeded",.timeout),
  (ascii "no such file or directory",.dependencyFailure),
  (ascii "executable not found",.dependencyFailure),
  (ascii "command not found",.dependencyFailure),
  (ascii "not installed",.dependencyFailure),
  (ascii "permission denied",.environmentFailure),
  (ascii "read-only file system",.environmentFailure),
  (ascii "cannot allocate memory",.resourceFailure),
  (ascii "out of memory",.resourceFailure),
  (ascii "no space left",.resourceFailure),
  (ascii "too many open files",.resourceFailure),
  (ascii "internal server error",.applicationFailure),
  (ascii "bad gateway",.applicationFailure)]

def fromMessage (message : Bytes) : FailureCategory :=
  match messageSignals.find? fun signal => Strings.contains (toLower message) signal.1 with
  | some signal => signal.2
  | none => .unknown

def specificity : FailureCategory → Nat
  | .none => 0
  | .unknown => 1
  | .assertionFailure => 2
  | .frameworkError | .configurationFailure | .timeout => 4
  | .applicationFailure | .networkFailure | .dependencyFailure | .environmentFailure
  | .resourceFailure => 3

def isRetryable : FailureCategory → Bool
  | .networkFailure | .timeout | .resourceFailure => true
  | _ => false

/-- `AssertionFailure::detail`. -/
def assertionDetail (what expression expected actual : Bytes) (location : Option Bytes) : Bytes :=
  what ++
    (if expression = [] then [] else ascii "\n  Expression: " ++ expression) ++
    (if expected = [] ∧ actual = [] then []
      else ascii "\n  Expected:   " ++ expected ++ ascii "\n  Actual:     " ++ actual) ++
    (match location with
      | some full => ascii "\n  At:         " ++ full
      | none => [])

/-- The first line is the message; a text of several lines is also the detail. -/
def describe (status : TestStatus) (category : FailureCategory) (what : Bytes) : Classification where
  status
  category
  message := what.takeWhile (· ≠ 10)
  detail := if 10 ∈ what then what else []

/-- A standard exception: its text decides, then whether it is `bad_alloc`. -/
def describeStd (what typeName : Bytes) (badAlloc : Bool) : Classification :=
  let plain := describe .error (fromMessage (what.takeWhile (· ≠ 10))) what
  let detail := if plain.detail = [] then [] else plain.detail ++ [10]
  { plain with
    category := if plain.category = .unknown ∧ badAlloc then .resourceFailure else plain.category
    detail := detail ++ ascii "exception type: " ++ typeName }

def fromUnknownException : Classification where
  status := .error
  category := .unknown
  message := ascii "test threw a non-std::exception object"
  detail := ascii "TestForge caught an exception that does not derive from std::exception, so no " ++
    ascii "diagnostic information could be extracted. Throw a std::exception subclass " ++
    ascii "(or use the TF_ASSERT_* macros) to get a useful failure report."

/-- `fromException`, and `fromUnknownException` for anything else. -/
def classify : Thrown → Classification
  | .skipTest what => describe .skipped .none what
  | .testCancelled what => describe .timeout .timeout what
  | .assertionFailure what expression expected actual location =>
    { describe .failed .assertionFailure what with
      detail := assertionDetail what expression expected actual location }
  | .testForgeError what category =>
    describe (if category = .timeout then .timeout else .error) category what
  | .badAlloc what typeName => describeStd what typeName true
  | .stdException what typeName => describeStd what typeName false
  | .other => fromUnknownException

def promote (refined candidate : FailureCategory) : FailureCategory :=
  if specificity candidate > specificity refined then candidate else refined

/-- The promotion by one text member, when it is a string. -/
def promoteBy (metadata : Value) (key : Bytes) (category : Bytes → Option FailureCategory)
    (refined : FailureCategory) : FailureCategory :=
  match ((metadata.find key).bind Value.asString?).bind category with
  | some candidate => promote refined candidate
  | none => refined

def refine (base : FailureCategory) (metadata : Value) : FailureCategory :=
  let refined := match readNumber metadata (ascii "http_status") with
    | some code => if code ≥ 500 then promote base .applicationFailure else base
    | none => base
  let refined := promoteBy metadata (ascii "transport_error") (fun text => some (fromMessage text)) refined
  let refined := promoteBy metadata (ascii "missing_dependency")
    (fun text => if text = [] then none else some .dependencyFailure) refined
  if refined = .unknown then
    promoteBy metadata (ascii "error_hint") (fun text => some (fromMessage text)) refined
  else refined

end FailureClassifier
end TestForge
