import TestForge.TestSpec
import TestForge.Url

/-! The gate between model output and execution. -/
namespace TestForge

open Json Strings

structure ValidationIssue where
  whereText : Bytes
  message : Bytes
  fatal : Bool := true
  deriving DecidableEq, Repr

structure ValidationReport where
  valid : Bool := false
  accepted : Nat := 0
  rejected : Nat := 0
  issues : List ValidationIssue := []

def ValidationReport.summary (report : ValidationReport) : Bytes :=
  decimal report.accepted ++ ascii " test(s) accepted, " ++ decimal report.rejected ++ ascii " rejected" ++
    if report.issues = [] then [] else ascii ", " ++ decimal report.issues.length ++ ascii " issue(s) recorded"

structure SpecValidator where
  config : AiConfig := {}
  policy : UrlPolicy := {}
  baseUrl : Bytes

namespace SpecValidator

def maxNameLength : Nat := 80
def maxEndpointLength : Nat := 512
def maxBodyBytes : Nat := 64 * 1024
def maxHeaderCount : Nat := 16
def maxHeaderValueLength : Nat := 1024
def maxAssertionsPerTest : Nat := 20

def isControl (c : UInt8) : Bool := c < 32 || c == 127

def hasControlCharacter (text : Bytes) : Bool := text.any isControl

def allowedMethods : List Bytes :=
  [ascii "GET",ascii "POST",ascii "PUT",ascii "PATCH",ascii "DELETE",ascii "HEAD",ascii "OPTIONS"]

def forbiddenHeaders : List Bytes :=
  [ascii "authorization",ascii "cookie",ascii "set-cookie",ascii "proxy-authorization",ascii "host",
    ascii "x-forwarded-for",ascii "x-forwarded-host",ascii "x-real-ip",ascii "content-length",
    ascii "transfer-encoding",ascii "connection",ascii "upgrade"]

def nameChar (c : UInt8) : Bool := isAlnum c || c == 95 || c == 45 || c == 46

def isSafeName (name : Bytes) : Except Bytes Unit :=
  if name = [] then .error (ascii "name is empty")
  else if name.length > maxNameLength then
    .error (ascii "name exceeds " ++ decimal maxNameLength ++ ascii " characters")
  else
    match name.find? fun c => !nameChar c with
    | some c => .error (ascii "name contains an unsupported character '" ++ [c] ++
        ascii "' (allowed: letters, digits, '_', '-', '.')")
    | none =>
      if name.head? = some 46 ∨ contains name (ascii "..") then
        .error (ascii "name must not start with '.' or contain '..'")
      else .ok ()

def urlSchemes : List Bytes :=
  [ascii "http:",ascii "https:",ascii "file:",ascii "ftp:",ascii "gopher:",ascii "data:",
    ascii "javascript:"]

/-- The dash of the message in UTF-8. -/
def emDash : Bytes := [0xE2,0x80,0x94]

def isSafeEndpoint (endpoint : Bytes) : Except Bytes Unit :=
  if endpoint = [] then .error (ascii "endpoint is empty")
  else if endpoint.length > maxEndpointLength then
    .error (ascii "endpoint exceeds " ++ decimal maxEndpointLength ++ ascii " characters")
  else if hasControlCharacter endpoint then .error (ascii "endpoint contains a control character")
  else if endpoint.head? ≠ some 47 then
    .error (ascii "endpoint must be a path beginning with '/' " ++ emDash ++
      ascii " absolute URLs are not allowed, so a generated test cannot choose its own target host")
  else if startsWith endpoint (ascii "//") then
    .error (ascii "endpoint must not start with '//' (that is a protocol-relative URL)")
  else if contains endpoint (ascii "..") then .error (ascii "endpoint must not contain '..'")
  else if urlSchemes.any (contains (toLower endpoint)) then
    .error (ascii "endpoint must not contain a URL scheme")
  else if contains endpoint (ascii "@") then .error (ascii "endpoint must not contain '@'")
  else .ok ()

/-- What the check of an endpoint has refused. -/
theorem isSafeEndpoint_ok {endpoint : Bytes} (safe : isSafeEndpoint endpoint = .ok ()) :
    endpoint.length ≤ maxEndpointLength ∧ hasControlCharacter endpoint = false ∧ endpoint.head? = some 47 ∧
      startsWith endpoint (ascii "//") = false ∧ contains endpoint (ascii "..") = false ∧
      urlSchemes.any (contains (toLower endpoint)) = false ∧ contains endpoint (ascii "@") = false := by
  unfold isSafeEndpoint at safe
  split_ifs at safe with _ long control front slashes dots schemes user
  exact ⟨Nat.not_lt.mp long,Bool.eq_false_of_not_eq_true control,not_not.mp front,
    Bool.eq_false_of_not_eq_true slashes,Bool.eq_false_of_not_eq_true dots,Bool.eq_false_of_not_eq_true schemes,
    Bool.eq_false_of_not_eq_true user⟩

/-- One issue when `broken`, none otherwise. -/
def issueIf (broken : Bool) (whereText message : Bytes) (fatal : Bool := true) : List ValidationIssue :=
  if broken then [{ whereText, message, fatal }] else []

def nameIssues (spec : TestSpec) (pre : Bytes) : List ValidationIssue :=
  match isSafeName spec.name with
  | .error reason => [⟨pre ++ ascii ".name",reason,true⟩]
  | .ok () => []

def methodIssues (spec : TestSpec) (pre : Bytes) : List ValidationIssue :=
  issueIf (spec.method ∉ allowedMethods) (pre ++ ascii ".method")
    (ascii "method '" ++ spec.method ++ ascii "' is not allowed (allowed: " ++
      join allowedMethods (ascii ", ") ++ ascii ")")

def endpointIssues (validator : SpecValidator) (spec : TestSpec) (pre : Bytes) :
    List ValidationIssue :=
  match isSafeEndpoint spec.endpoint with
  | .error reason => [⟨pre ++ ascii ".endpoint",reason,true⟩]
  | .ok () =>
    match joinUrl validator.baseUrl spec.endpoint with
    | none => [⟨pre ++ ascii ".endpoint",
        ascii "endpoint could not be resolved against the configured base URL '" ++
          validator.baseUrl ++ ascii "'",true⟩]
    | some resolved =>
      let rejection := validator.policy.rejectText resolved
      issueIf (rejection ≠ []) (pre ++ ascii ".endpoint")
        (ascii "resolved URL is not permitted: " ++ rejection)

def statusOutside (status : Int) : Bool := status < 100 || status > 599

def statusIssues (spec : TestSpec) (pre : Bytes) : List ValidationIssue :=
  issueIf (statusOutside spec.expectedStatus) (pre ++ ascii ".expected_status")
    (ascii "expected status " ++ decimalInt spec.expectedStatus ++ ascii " is outside 100-599") ++
  spec.acceptableStatuses.flatMap fun status =>
    issueIf (statusOutside status) (pre ++ ascii ".acceptable_statuses")
      (ascii "status " ++ decimalInt status ++ ascii " is outside 100-599")

def latencyIssues (spec : TestSpec) (pre : Bytes) : List ValidationIssue :=
  issueIf (spec.maxResponseTimeMs < 0 || spec.maxResponseTimeMs > 600000)
    (pre ++ ascii ".max_response_time_ms") (ascii "latency budget must be between 0 and 600000 ms")

/-- The issues of one header. Only string values are looked at: others are never sent. -/
def headerIssues (pre : Bytes) (header : Bytes × Value) : List ValidationIssue :=
  issueIf (toLower header.1 ∈ forbiddenHeaders) (pre ++ ascii ".headers")
    (ascii "header '" ++ header.1 ++
      ascii "' may not be set by a generated test; credentials and routing headers come from configuration") ++
  issueIf (hasControlCharacter header.1) (pre ++ ascii ".headers")
    (ascii "header name contains a control character") ++
  match header.2.asString? with
  | none => []
  | some value =>
    issueIf (hasControlCharacter value) (pre ++ ascii ".headers")
      (ascii "value of header '" ++ header.1 ++ ascii "' contains a control character") ++
    issueIf (value.length > maxHeaderValueLength) (pre ++ ascii ".headers")
      (ascii "value of header '" ++ header.1 ++ ascii "' is too long")

def headersIssues (spec : TestSpec) (pre : Bytes) : List ValidationIssue :=
  issueIf (spec.headers.length > maxHeaderCount) (pre ++ ascii ".headers")
    (ascii "more than " ++ decimal maxHeaderCount ++ ascii " headers") ++
  spec.headers.flatMap (headerIssues pre)

def bodyIssues (spec : TestSpec) (pre : Bytes) : List ValidationIssue :=
  if spec.body.isNull then []
  else
    issueIf (spec.body.dump.length > maxBodyBytes) (pre ++ ascii ".body")
      (ascii "request body exceeds " ++ decimal maxBodyBytes ++ ascii " bytes") ++
    issueIf (spec.method ∈ [ascii "GET",ascii "HEAD"]) (pre ++ ascii ".body")
      (ascii "a " ++ spec.method ++ ascii " request should not carry a body") false

def assertionIssues (whereText : Bytes) (assertion : SpecAssertion) : List ValidationIssue :=
  issueIf (hasControlCharacter assertion.target) whereText
    (ascii "assertion target contains a control character") ++
  issueIf (assertion.target.length > 200) whereText (ascii "assertion target is too long") ++
  issueIf (assertion.kind == .responseTimeUnder &&
      (!assertion.expected.isNumber || assertion.expected.intOr 0 ≤ 0)) whereText
    (ascii "response_time_under_ms requires a positive number") ++
  issueIf (assertion.kind == .statusCodeIn && !assertion.expected.isArray) whereText
    (ascii "status_code_in requires an array of status codes")

def assertionsIssues (spec : TestSpec) (pre : Bytes) : List ValidationIssue :=
  issueIf (spec.assertions.length > maxAssertionsPerTest) (pre ++ ascii ".assertions")
    (ascii "more than " ++ decimal maxAssertionsPerTest ++ ascii " assertions") ++
  (spec.assertions.zipIdx.flatMap fun (assertion,i) =>
    assertionIssues (pre ++ ascii ".assertions[" ++ decimal i ++ ascii "]") assertion)

def testPrefix (index : Nat) : Bytes := ascii "tests[" ++ decimal index ++ ascii "]"

def validateOne (validator : SpecValidator) (spec : TestSpec) (index : Nat) : List ValidationIssue :=
  let pre := testPrefix index
  nameIssues spec pre ++ methodIssues spec pre ++ validator.endpointIssues spec pre ++
    statusIssues spec pre ++ latencyIssues spec pre ++ headersIssues spec pre ++
    bodyIssues spec pre ++ assertionsIssues spec pre

/-- The tests kept, every issue and the number dropped; `seen` holds the lowered
names of the tests before, dropped ones included. -/
def validateTests (validator : SpecValidator) :
    List TestSpec → Nat → List Bytes → List TestSpec × List ValidationIssue × Nat
  | [], _, _ => ([],[],0)
  | spec :: rest, index, seen =>
    let issues := validator.validateOne spec index ++
      issueIf (toLower spec.name ∈ seen) (testPrefix index ++ ascii ".name")
        (ascii "duplicate test name '" ++ spec.name ++ ascii "' within the suite")
    let (kept,later,dropped) := validateTests validator rest (index + 1) (toLower spec.name :: seen)
    if issues.any (·.fatal) then (kept,issues ++ later,dropped + 1)
    else (spec :: kept,issues ++ later,dropped)

/-- The report, and the suite with the rejected tests removed. -/
def validate (validator : SpecValidator) (suite : TestSpecSuite) : ValidationReport × TestSpecSuite :=
  match isSafeName suite.suite with
  | .error reason =>
    ({ rejected := suite.tests.length,
       issues := [⟨ascii "suite",ascii "suite name is not usable: " ++ reason,true⟩] },
      { suite with tests := [] })
  | .ok () =>
    let maxTests := (max 1 validator.config.maxGeneratedTests).toNat
    let excess := suite.tests.length - maxTests
    let capped := issueIf (suite.tests.length > maxTests) (ascii "tests")
      (ascii "the specification contains " ++ decimal suite.tests.length ++
        ascii " tests; keeping the first " ++ decimal maxTests ++
        ascii " (ai.max_generated_tests)") false
    let (kept,issues,dropped) := validator.validateTests (suite.tests.take maxTests) 0 []
    let unusable := issueIf (kept.isEmpty && (capped ++ issues).isEmpty) (ascii "tests")
      (ascii "the specification produced no usable tests")
    ({ valid := !kept.isEmpty, accepted := kept.length, rejected := excess + dropped,
       issues := capped ++ issues ++ unusable },
      { suite with tests := kept })

/-- The validator finds nothing in a test that would drop it. -/
def Accepts (validator : SpecValidator) (spec : TestSpec) : Prop :=
  ∃ index, ∀ issue ∈ validator.validateOne spec index, issue.fatal = false

theorem issueIf_fatal (broken : Bool) (whereText message : Bytes)
    (clean : ∀ issue ∈ issueIf broken whereText message, issue.fatal = false) : broken = false := by
  cases broken with
  | false => rfl
  | true => simpa using clean ⟨whereText,message,true⟩ (by simp [issueIf])

/-- What acceptance says about the endpoint. -/
theorem Accepts.endpoint {validator : SpecValidator} {spec : TestSpec}
    (accepted : validator.Accepts spec) :
    isSafeEndpoint spec.endpoint = .ok () ∧ ∃ resolved,
      joinUrl validator.baseUrl spec.endpoint = some resolved ∧
        validator.policy.rejectText resolved = [] := by
  obtain ⟨index,clean⟩ := accepted
  have clean : ∀ issue ∈ validator.endpointIssues spec (testPrefix index), issue.fatal = false :=
    fun issue found => clean issue (by simp [validateOne,found])
  unfold endpointIssues at clean
  split at clean
  · simp at clean
  · next safe =>
    split at clean
    · simp at clean
    · next resolved joined =>
      exact ⟨safe,resolved,joined,by simpa using issueIf_fatal _ _ _ clean⟩

theorem Accepts.method {validator : SpecValidator} {spec : TestSpec}
    (accepted : validator.Accepts spec) : spec.method ∈ allowedMethods := by
  obtain ⟨index,clean⟩ := accepted
  have clean : ∀ issue ∈ methodIssues spec (testPrefix index), issue.fatal = false :=
    fun issue found => clean issue (by simp [validateOne,found])
  simpa using issueIf_fatal _ _ _ clean

/-- What acceptance says about a header that will be sent. -/
theorem Accepts.header {validator : SpecValidator} {spec : TestSpec}
    (accepted : validator.Accepts spec) (header : Bytes × Value) (member : header ∈ spec.headers) :
    toLower header.1 ∉ forbiddenHeaders ∧ hasControlCharacter header.1 = false ∧
      ∀ value ∈ header.2.asString?, hasControlCharacter value = false := by
  obtain ⟨index,clean⟩ := accepted
  have clean : ∀ issue ∈ headerIssues (testPrefix index) header, issue.fatal = false :=
    fun issue found => clean issue (by
      simp only [validateOne,headersIssues,List.mem_append,List.mem_flatMap]
      exact .inl (.inl (.inr (.inr ⟨header,member,found⟩))))
  simp only [headerIssues,List.mem_append] at clean
  refine ⟨?_,?_,?_⟩
  · simpa using issueIf_fatal _ _ _ fun issue found => clean issue (.inl (.inl found))
  · exact issueIf_fatal _ _ _ fun issue found => clean issue (.inl (.inr found))
  · intro value text
    simp only [Option.mem_def] at text
    simp only [text,List.mem_append] at clean
    exact issueIf_fatal _ _ _ fun issue found => clean issue (.inr (.inl found))

end SpecValidator
end TestForge
