import TestForge.Assertions
import TestForge.JsonParser
import TestForge.SpecTestCase

/-! What a generated test makes of its response: the check of every condition, and the
outcome against what the conditions state. -/
namespace TestForge

open Json Strings

/-- `elapsed < d` for a finite double. -/
def Double.above (d : Double) (z : Int) : Bool :=
  z * (2^1074 : Nat) < if d.negative then -(d.units : Int) else d.units

namespace Json.Value

def items : Value → List Value
  | .array items => items
  | _ => []

/-- A number greater than an integer. -/
def exceeds : Value → Int → Bool
  | .int value, z => z < value
  | .double value, z => value.above z
  | _, _ => false

/-- The text of a string, and the JSON text of everything else. -/
def text (value : Value) : Bytes := value.asString?.getD value.dump

end Json.Value

namespace HttpResponse

def describeTarget (response : HttpResponse) : Bytes :=
  if response.requestMethod = [] ∧ response.requestUrl = [] then ascii "<unknown request>"
  else response.requestMethod ++ 32 :: response.requestUrl

def jsonOrThrow (response : HttpResponse) : Except AssertionFailure Value :=
  if response.body = [] then .ok .null
  else
    match parse {} response.body with
    | .ok document => .ok document
    | .error error => .error {
        message := ascii "response body is not valid JSON for " ++ response.describeTarget ++ ascii ": " ++ error.what
        expression := ascii "response.json()"
        expected := ascii "valid JSON"
        actual := truncate response.body 400
        location := none }

/-- The document in the body. -/
def document (response : HttpResponse) : Option Value :=
  if response.body = [] then none else tryParse {} response.body

end HttpResponse

namespace SpecAssertion

def describe (a : SpecAssertion) : Bytes :=
  match a.kind with
  | .statusCode => ascii "status == " ++ a.expected.dump
  | .statusCodeIn => ascii "status in " ++ a.expected.dump
  | .responseTimeUnder => ascii "response time < " ++ a.expected.dump ++ ascii "ms"
  | .bodyContains => ascii "body contains " ++ a.expected.dump
  | .bodyNotContains => ascii "body does not contain " ++ a.expected.dump
  | .jsonFieldExists => ascii "json has field '" ++ a.target ++ ascii "'"
  | .jsonFieldEquals => ascii "json." ++ a.target ++ ascii " == " ++ a.expected.dump
  | .headerExists => ascii "header '" ++ a.target ++ ascii "' present"
  | .headerEquals => ascii "header '" ++ a.target ++ ascii "' == " ++ a.expected.dump

/-- What `describe` states. -/
def Holds (a : SpecAssertion) (response : HttpResponse) (elapsed : Int) : Prop :=
  match a.kind with
  | .statusCode => (Value.int response.statusCode).same a.expected = true
  | .statusCodeIn => ∃ item ∈ a.expected.items, (Value.int response.statusCode).same item = true
  | .responseTimeUnder => a.expected.exceeds elapsed = true
  | .bodyContains => a.expected.text <:+: response.body
  | .bodyNotContains => ¬a.expected.text <:+: response.body
  | .jsonFieldExists => ∃ document ∈ response.document, (document.path a.target).isSome = true
  | .jsonFieldEquals => ∃ document ∈ response.document, ∃ found ∈ document.path a.target, found.same a.expected = true
  | .headerExists => response.headers.contains a.target = true
  | .headerEquals => ∃ value ∈ response.headers.get a.target, a.expected = .string value

/-- The numbers of a list of statuses, narrowed. -/
def allowed (expected : Value) : List Int :=
  (expected.items.filter (·.isNumber)).map fun item => toInt32 (item.intOr 0)

end SpecAssertion

namespace SpecTestCase

open Assertions

/-- Only a response whose body is no JSON makes a check throw. -/
def evaluate (a : SpecAssertion) (response : HttpResponse) (elapsed : Int) : Except AssertionFailure Report :=
  match a.kind with
  | .statusCode => .ok (statusCode response.statusCode (toInt32 (a.expected.intOr 200)) response.describeTarget)
  | .statusCodeIn => .ok (statusCodeIn response.statusCode (SpecAssertion.allowed a.expected) response.describeTarget)
  | .responseTimeUnder => .ok (responseTime elapsed (a.expected.intOr 0) response.describeTarget)
  | .bodyContains => .ok (containsSubstring response.body (a.expected.stringOr [])
      (ascii "response body contains expected text"))
  | .bodyNotContains => .ok (doesNotContainSubstring response.body (a.expected.stringOr [])
      (ascii "response body excludes text"))
  | .jsonFieldExists => response.jsonOrThrow.map fun document => jsonHasField document a.target
  | .jsonFieldEquals => response.jsonOrThrow.map fun document => jsonFieldEquals document a.target a.expected
  | .headerExists => .ok {
      succeeded := response.headers.contains a.target
      expression := ascii "header '" ++ a.target ++ ascii "' present"
      expected := ascii "header present"
      actual := if response.headers.contains a.target then ascii "present" else ascii "absent"
      message := ascii "missing response header for " ++ response.describeTarget }
  | .headerEquals =>
    let actual := response.headers.getOr a.target []
    let expected := a.expected.stringOr []
    .ok {
      succeeded := actual == expected
      expression := ascii "header '" ++ a.target ++ ascii "' == expected"
      expected
      actual := if actual = [] then ascii "(absent)" else actual
      message := ascii "unexpected response header for " ++ response.describeTarget }

end SpecTestCase

/-- One thing a generated test asserts. -/
inductive SpecCondition where
  | statusIn (acceptable : List Int)
  | status (expected : Int)
  | latency (budget : Int)
  | assertion (a : SpecAssertion)

namespace SpecCondition

def check (response : HttpResponse) (elapsed : Int) : SpecCondition → Except AssertionFailure Report
  | .statusIn acceptable => .ok (Assertions.statusCodeIn response.statusCode acceptable response.describeTarget)
  | .status expected => .ok (Assertions.statusCode response.statusCode expected response.describeTarget)
  | .latency budget => .ok (Assertions.responseTime elapsed budget response.describeTarget)
  | .assertion a => SpecTestCase.evaluate a response elapsed

def Holds (response : HttpResponse) (elapsed : Int) : SpecCondition → Prop
  | .statusIn acceptable => response.statusCode ∈ acceptable
  | .status expected => response.statusCode = expected
  | .latency budget => elapsed ≤ budget
  | .assertion a => a.Holds response elapsed

end SpecCondition

/-- In the order of `execute`. -/
def TestSpec.conditions (spec : TestSpec) : List SpecCondition :=
  (if spec.acceptableStatuses ≠ [] then .statusIn spec.acceptableStatuses else .status spec.expectedStatus) ::
    (if spec.maxResponseTimeMs > 0 then [.latency spec.maxResponseTimeMs] else []) ++
      spec.assertions.map .assertion

namespace SpecTestCase

inductive Outcome where
  | passed
  /-- With the numbers of the conditions that the failure lists. -/
  | failed (failure : AssertionFailure) (listed : List Nat)
  /-- The message of a `NetworkError`. -/
  | unreachable (message : Bytes)

/-- The checks one after the other, under a soft scope. A throw ends them, and comes with
the number of its condition. -/
def collect (response : HttpResponse) (elapsed : Int) (location : Option Bytes) :
    List SpecCondition → Nat → SoftAssertions.Scope → Except (AssertionFailure × Nat) SoftAssertions.Scope
  | [], _, soft => .ok soft
  | condition :: rest, number, soft =>
    match condition.check response elapsed with
    | .error failure => .error (failure,number)
    | .ok report =>
      collect response elapsed location rest (number + 1)
        (if report.succeeded then soft else soft.record number (report.failure location))

/-- `execute` from the response on. -/
def conclude (spec : TestSpec) (response : HttpResponse) (elapsed : Int) (location : Option Bytes) : Outcome :=
  if response.transportError then
    .unreachable (ascii "could not reach " ++ response.requestUrl ++ ascii ": " ++ response.errorMessage)
  else
    match collect response elapsed location spec.conditions 0 {} with
    | .error (failure,number) => .failed failure [number]
    | .ok soft => if soft.failures = [] then .passed else .failed soft.combined (soft.failures.map (·.1))

end SpecTestCase
end TestForge
