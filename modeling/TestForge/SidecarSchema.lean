import TestForge.AiSidecar
import TestForge.PythonValues

/-! The sidecar's own check of a generated specification, over every value the model's answer can
hold, and the reply of `/generate-tests` that is made of it. The first exception ends the check;
it is raised where a wrong type was reported and then used nevertheless. -/
namespace TestForge.Sidecar

open Python

def allowedMethods : List Text := [text "GET",text "POST",text "PUT",text "PATCH",text "DELETE",text "HEAD",text "OPTIONS"]

def allowedAssertionKinds : List Text := [text "status_code",text "status_code_in",text "response_time_under_ms",
  text "body_contains",text "body_not_contains",text "json_field_exists",text "json_field_equals",text "header_exists",
  text "header_equals"]

def forbiddenHeaders : List Text := [text "authorization",text "cookie",text "set-cookie",text "proxy-authorization",
  text "host",text "x-forwarded-for",text "x-forwarded-host",text "x-real-ip",text "content-length",
  text "transfer-encoding",text "connection",text "upgrade"]

def nameCharacters : Text := text "abcdefghijklmnopqrstuvwxyzABCDEFGHIJKLMNOPQRSTUVWXYZ0123456789_-."

/-- The schemes an endpoint may not name. -/
def schemes : List Text := [text "http:",text "https:",text "file:",text "ftp:",text "data:",text "javascript:"]

/-- The kinds of assertion that name a target. -/
def targetKinds : List Text := [text "json_field_exists",text "json_field_equals",text "header_exists",text "header_equals"]

variable {Float : Type} (runtime : Runtime Float)

/-! ### Names and endpoints -/

def endpointTextProblem (endpoint : Text) : Text :=
  if !startsWith endpoint (text "/") then text "endpoint must be a relative path starting with '/'"
  else if startsWith endpoint (text "//") then text "endpoint must not start with '//'"
  else if includes endpoint (text "..") then text "endpoint must not contain '..'"
  else if includes endpoint (text "@") then text "endpoint must not contain '@'"
  else
    match schemes.find? fun scheme => includes (runtime.lower endpoint) scheme with
    | some scheme => text "endpoint must not contain the '" ++ scheme ++ text "' scheme"
    | none =>
      if endpoint.any fun c => c < 32 || c == 127 then text "endpoint must not contain control characters" else []

/-- No problem is the empty text. -/
def endpointProblem (endpoint : Value Float) : Except Exception Text :=
  if !endpoint.isStr || !endpoint.truthy runtime then .ok (text "endpoint must be a non-empty string")
  else do
    let endpoint ← endpoint.asStr
    return endpointTextProblem runtime endpoint

def nameTextProblem (name : Text) : Text :=
  if 80 < name.length then text "name must be 80 characters or fewer"
  else
    let bad := sorted ((name.filter fun c => !nameCharacters.contains c).dedup.map fun c => [c])
    if bad ≠ [] then text "name contains unsupported character(s): " ++ runtime.quoted (join [] bad)
    else if startsWith name (text ".") || includes name (text "..") then text "name must not start with '.' or contain '..'"
    else []

def nameProblem (name : Value Float) : Except Exception Text :=
  if !name.isStr || !name.truthy runtime then .ok (text "name must be a non-empty string")
  else do
    let name ← name.asStr
    return nameTextProblem runtime name

/-! ### One test -/

def labelled (label problem : Text) : List Text := if problem = [] then [] else [label ++ text ": " ++ problem]

def nameProblems (here : Text) (test : Value Float) : Except Exception (List Text) := do
  let problem ← nameProblem runtime (← test.get (text "name"))
  return labelled (here ++ text ".name") problem

def methodAllowed (method : Value Float) : Except Exception Bool :=
  if !method.isStr then .ok false
  else do
    let method ← method.asStr
    return allowedMethods.contains (runtime.upper method)

def methodProblems (here : Text) (test : Value Float) : Except Exception (List Text) := do
  let method ← test.get (text "method") (.str (text "GET"))
  let allowed ← methodAllowed runtime method
  return if allowed then [] else [here ++ text ".method: '" ++ method.toText runtime ++ text "' is not allowed (allowed: " ++
    join (text ", ") (sorted allowedMethods) ++ text ")"]

def endpointProblems (here : Text) (test : Value Float) : Except Exception (List Text) := do
  let problem ← endpointProblem runtime (← test.get (text "endpoint"))
  return labelled (here ++ text ".endpoint") problem

/-- An integer, and no boolean, between two bounds. -/
def integerBetween (low high : Int) (value : Value Float) : Except Exception Bool :=
  if !value.isInt || value.isBool then .ok false else value.between runtime low high

def statusProblems (here : Text) (test : Value Float) : Except Exception (List Text) := do
  let status ← test.get (text "expected_status") (.int 200)
  let fits ← integerBetween runtime 100 599 status
  return if fits then []
    else [here ++ text ".expected_status: " ++ status.shown runtime ++ text " is not a status code in 100-599"]

def budgetProblems (here : Text) (test : Value Float) : Except Exception (List Text) := do
  match ← test.get (text "max_response_time_ms") with
  | .none => return []
  | budget =>
    let fits ← integerBetween runtime 0 600000 budget
    return if fits then []
      else [here ++ text ".max_response_time_ms: must be an integer between 0 and 600000"]

def headerProblems (here : Text) (key : Value Float) : List Text :=
  if forbiddenHeaders.contains (runtime.lower (key.toText runtime)) then
    [here ++ text ".headers: '" ++ key.toText runtime ++ text "' may not be set by a generated test"]
  else []

def headersProblems (here : Text) (test : Value Float) : Except Exception (List Text) := do
  let headers ← test.get (text "headers") (.dict [])
  if !headers.truthy runtime then .ok []
  else if !headers.isDict then .ok [here ++ text ".headers: must be an object"]
  else do
    let count ← headers.len
    let keys ← headers.elements
    return (if 16 < count then [here ++ text ".headers: more than 16 headers"] else []) ++
      keys.flatMap (headerProblems runtime here)

/-- An unknown kind is reported, and the assertion is left at that. -/
def assertionProblems (spot : Text) (assertion : Value Float) : Except Exception (List Text) :=
  if !assertion.isDict then .ok [spot ++ text ": must be an object"]
  else do
    let kind ← assertion.get (text "kind")
    let known ← kind.isIn allowedAssertionKinds
    if !known then .ok [spot ++ text ".kind: '" ++ kind.toText runtime ++
      text "' is not a supported assertion (supported: " ++ join (text ", ") (sorted allowedAssertionKinds) ++ text ")"]
    else do
      let needsTarget ← kind.isIn targetKinds
      let target ← assertion.get (text "target")
      return if needsTarget && !target.truthy runtime then
        [spot ++ text ".target: '" ++ kind.toText runtime ++ text "' requires a target"] else []

def assertionsProblems (here : Text) (test : Value Float) : Except Exception (List Text) := do
  let assertions ← test.get (text "assertions") (.list [])
  if !assertions.truthy runtime then .ok []
  else if !assertions.isList then .ok [here ++ text ".assertions: must be an array"]
  else do
    let count ← assertions.len
    let items ← assertions.elements
    let problems ← gather (items.zipIdx.map fun item =>
      assertionProblems runtime (here ++ text ".assertions[" ++ decimal item.2 ++ text "]") item.1)
    return (if 20 < count then [here ++ text ".assertions: more than 20 assertions"] else []) ++ problems

/-- `value in (None, {}, "")` with the comparison of values. -/
def isBlank : Value Float → Bool
  | .none => true
  | .dict [] => true
  | .str [] => true
  | _ => false

/-- Upper-cases the method, whatever it is. -/
def bodyProblems (here : Text) (test : Value Float) : Except Exception (List Text) := do
  let method ← test.get (text "method") (.str (text "GET"))
  let method ← method.asStr
  let body ← test.get (text "body")
  return if [text "GET",text "HEAD"].contains (runtime.upper method) && !isBlank body then
    [here ++ text ".body: a " ++ runtime.upper method ++ text " request should not carry a body"] else []

def validateTest (test : Value Float) (index : Nat) : Except Exception (List Text) :=
  let here := text "tests[" ++ decimal index ++ text "]"
  if !test.isDict then .ok [here ++ text ": must be an object"]
  else gather [
    nameProblems runtime here test,
    methodProblems runtime here test,
    endpointProblems runtime here test,
    statusProblems runtime here test,
    budgetProblems runtime here test,
    headersProblems runtime here test,
    assertionsProblems runtime here test,
    bodyProblems runtime here test]

/-! ### The specification -/

/-- The names seen, in lower case, each with the index of its first test. -/
abbrev Seen := List (Text × Nat)

def noteName (test : Value Float) (index : Nat) (seen : Seen) : Except Exception (List Text × Seen) :=
  if !test.isDict then .ok ([],seen)
  else do
    let given ← test.get (text "name") (.str [])
    let name := runtime.lower (given.toText runtime)
    if name = [] then .ok ([],seen)
    else
      match seen.lookup name with
      | some first => .ok ([text "tests[" ++ decimal index ++ text "].name: duplicates tests[" ++ decimal first ++
          text "] ('" ++ name ++ text "')"],seen)
      | none => .ok ([],seen ++ [(name,index)])

def testsProblems : List (Value Float) → Nat → Seen → Except Exception (List Text)
  | [],_,_ => .ok []
  | test :: tests,index,seen => do
    let problems ← validateTest runtime test index
    let noted ← noteName runtime test index seen
    let later ← testsProblems tests (index + 1) noted.2
    return problems ++ noted.1 ++ later

def validateSpecification (specification : Value Float) (suite : Value Float) (maxTests : Int) :
    Except Exception (List Text) :=
  if !specification.isDict then .ok [text "specification: must be a JSON object"]
  else do
    let problem ← nameProblem runtime (← specification.get (text "suite") suite)
    let tests ← specification.get (text "tests")
    if !tests.isList then .ok (labelled (text "suite") problem ++ [text "tests: must be an array"])
    else if !tests.truthy runtime then
      .ok (labelled (text "suite") problem ++ [text "tests: the specification contains no tests"])
    else do
      let count ← tests.len
      let items ← tests.elements
      let problems ← testsProblems runtime items 0 []
      return labelled (text "suite") problem ++ (if maxTests < count then
        [text "tests: " ++ decimal count ++ text " tests exceeds the requested maximum of " ++ decimalInt maxTests] else []) ++
        problems

/-! ### The reply -/

/-- What `/generate-tests` takes from the request and from the call of the model. -/
structure Generated (Float : Type) where
  requirement : Text
  suite : Text
  maxTests : Int
  model : Text
  elapsedMs : Int
  usage : Value Float

def rejection (model : Text) (specification : Value Float) (problems : List Text) : Value Float := .dict [
  (text "ok",.bool false),
  (text "error",.str (text "the model's output did not match the required schema")),
  (text "problems",.list (problems.map .str)),
  (text "raw",specification),
  (text "model",.str model)]

def unavailable (model error : Text) : Value Float := .dict [
  (text "ok",.bool false),
  (text "error",.str error),
  (text "model",.str model)]

/-- What the answer of the model has to be before it is looked into. -/
def objectAnswer (parsed : Value Float) : Except Text (Value Float) :=
  if parsed.isDict then .ok parsed else .error (text "the model returned JSON that is not an object")

/-- What is checked: a part of the answer, or the answer itself. -/
def answered (raw : Value Float) : Value Float := (raw.find (text "specification")).getD raw

/-- The reply for a checked specification, which is changed only when nothing was found. -/
def replyTo (call : Generated Float) (specification : Value Float) (problems : List Text) : Except Exception (Value Float) :=
  if problems ≠ [] then .ok (rejection call.model specification problems)
  else do
    let specification ← specification.setdefault (text "suite") (.str call.suite)
    let specification ← specification.setdefault (text "requirement") (.str call.requirement)
    let specification ← specification.setItem (text "source") (.str (text "ai:" ++ call.model))
    let specification ← specification.setItem (text "model") (.str call.model)
    return .dict [
      (text "ok",.bool true),
      (text "model",.str call.model),
      (text "elapsed_ms",.int call.elapsedMs),
      (text "specification",specification),
      (text "usage",call.usage)]

/-- The handler, given the answer of the model as it was decoded. -/
def generateTests (call : Generated Float) (parsed : Value Float) : Except Exception (Value Float) :=
  match objectAnswer parsed with
  | .error message => .ok (unavailable call.model message)
  | .ok raw => do
    let specification ← raw.get (text "specification") raw
    let problems ← validateSpecification runtime specification (.str call.suite) (min call.maxTests maxTestsCeiling)
    replyTo call specification problems

end TestForge.Sidecar
