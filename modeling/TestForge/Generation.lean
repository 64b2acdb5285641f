import TestForge.AiSidecar
import TestForge.SpecRegistration
import TestForge.TestSpecJson

/-! How generated tests come into the registry: what an AI provider answers, or what stands in a
file, goes through the service's own validation and then through that of `registerSpecSuite`.
The replies are those of the service; logging is left out. -/
namespace TestForge

open Json Sequence Strings Settings

structure GenerationResult where
  ok : Bool := false
  error : Bytes := []
  suite : TestSpecSuite := {}
  model : Bytes := []
  provider : Bytes := []
  elapsed : Int := 0
  promptTokens : Int := 0
  completionTokens : Int := 0

/-- A provider, with what it answers to a request. -/
structure AiProvider where
  isEnabled : Bool := true
  health : Value
  generateTests : GenerationRequest → GenerationResult

namespace Strings

def containsIgnoreCase (text needle : Bytes) : Bool := contains (toLower text) (toLower needle)

end Strings

/-! ### The mock -/

namespace MockAiProvider

def makeSpec (name method endpoint : Bytes) (status : Int) (description : Bytes) : TestSpec where
  name
  method
  endpoint
  expectedStatus := status
  description
  tags := [ascii "generated",ascii "mock"]

def kKnown : List Bytes :=
  [ascii "users",ascii "items",ascii "orders",ascii "products",ascii "accounts",ascii "sessions"]

/-- The singular counts as well. -/
def guessResource (requirement : Bytes) : Bytes :=
  (kKnown.find? fun candidate => containsIgnoreCase requirement candidate ||
    containsIgnoreCase requirement candidate.dropLast).getD (ascii "items")

def baseline (resource : Bytes) : List TestSpec := [
  { makeSpec (ascii "list_" ++ resource) (ascii "GET") (47 :: resource) 200
      (ascii "MOCK: the collection endpoint responds successfully") with
    assertions := [{ kind := .responseTimeUnder, expected := .int 2000 }]
    maxResponseTimeMs := 2000 },
  makeSpec (ascii "missing_" ++ resource ++ ascii "_returns_404") (ascii "GET") (47 :: resource ++ ascii "/999999") 404
    (ascii "MOCK: an unknown identifier produces a 404")]

def creation (resource : Bytes) : List TestSpec := [
  { makeSpec (ascii "create_valid_" ++ resource) (ascii "POST") (47 :: resource) 201
      (ascii "MOCK: a well-formed creation request succeeds") with
    body := .object [(ascii "name",.string (ascii "testforge-mock")),(ascii "email",.string (ascii "mock@example.com")),
      (ascii "password",.string (ascii "mock-password-1234"))]
    assertions := [{ kind := .jsonFieldExists, target := ascii "id" }] },
  { makeSpec (ascii "create_missing_required_field") (ascii "POST") (47 :: resource) 400
      (ascii "MOCK: a request missing a required field is rejected") with
    body := .object [(ascii "name",.string (ascii "testforge-mock"))] }]

def malformed (resource : Bytes) : TestSpec :=
  { makeSpec (ascii "reject_malformed_payload") (ascii "POST") (47 :: resource) 400
      (ascii "MOCK: a payload that violates the stated rules is rejected") with
    body := .object [(ascii "email",.string (ascii "not-an-email")),(ascii "password",.string (ascii "short"))] }

def duplicate (resource : Bytes) : TestSpec :=
  { makeSpec (ascii "duplicate_is_rejected") (ascii "POST") (47 :: resource) 409
      (ascii "MOCK: creating a duplicate conflicts") with
    body := .object [(ascii "name",.string (ascii "testforge-mock-duplicate")),
      (ascii "email",.string (ascii "duplicate@example.com")),(ascii "password",.string (ascii "mock-password-1234"))] }

def mentions (requirement : Bytes) (words : List Bytes) : Bool := words.any (containsIgnoreCase requirement)

/-- The rules keyed off the requirement text. -/
def rules (requirement resource : Bytes) : List TestSpec :=
  baseline resource ++
    (if mentions requirement [ascii "creat",ascii "regist",ascii "post",ascii "sign up"] then creation resource else []) ++
      (if mentions requirement [ascii "valid",ascii "requir",ascii "must "] then [malformed resource] else []) ++
        if mentions requirement [ascii "uniq"] then [duplicate resource] else []

def modelName : Bytes := ascii "mock-deterministic-v1"

def generateTests (forcedError : Bytes) (request : GenerationRequest) : GenerationResult :=
  if forcedError ≠ [] then { provider := ascii "mock", model := modelName, error := forcedError }
  else
    let tests := (rules request.requirement (guessResource request.requirement)).take (max 1 request.maxTests.toInt).toNat
    { ok := true
      provider := ascii "mock"
      model := modelName
      suite := {
        suite := if request.suiteName = [] then ascii "generated" else request.suiteName
        requirement := request.requirement
        source := ascii "mock"
        model := modelName
        tests }
      elapsed := 1
      promptTokens := request.requirement.length / 4
      completionTokens := tests.length * 40 }

def health : Value := .object [
  (ascii "provider",.string (ascii "mock")),
  (ascii "enabled",.bool true),
  (ascii "reachable",.bool true),
  (ascii "model",.string modelName),
  (ascii "is_mock",.bool true),
  (ascii "note",.string (ascii "Deterministic offline stand-in. No model is contacted and no output here reflects " ++
    ascii "a real language model."))]

end MockAiProvider

/-- The mock as a provider. -/
def mockProvider (forcedError : Bytes := []) : AiProvider where
  health := MockAiProvider.health
  generateTests := MockAiProvider.generateTests forcedError

/-! ### The service -/

def ValidationIssue.toJson (issue : ValidationIssue) : Value := .object [
  (ascii "where",.string issue.whereText),
  (ascii "message",.string issue.message),
  (ascii "fatal",.bool issue.fatal)]

def ValidationReport.toJson (report : ValidationReport) : Value := .object [
  (ascii "valid",.bool report.valid),
  (ascii "accepted",.int report.accepted),
  (ascii "rejected",.int report.rejected),
  (ascii "summary",.string report.summary),
  (ascii "issues",.array (report.issues.map (·.toJson)))]

def errorObject (message : Bytes) (code : Bytes := ascii "ERROR") : Value := .object [
  (ascii "ok",.bool false),
  (ascii "error",.string message),
  (ascii "code",.string code)]

namespace TestForgeService

/-- What validation and registration read of the configuration. -/
def validationConfig (config : Config) : TestForge.AiConfig where
  maxGeneratedTests := config.ai.maxGeneratedTests.toInt

def targetConfig (config : Config) : ApiConfig where
  baseUrl := config.api.baseUrl
  defaultHeaders := config.api.defaultHeaders

/-- The validator of `generateTests` and `loadSpecFile`: besides the host of the base URL it lets
the configured ones pass. -/
def serviceValidator (config : Config) : SpecValidator where
  config := validationConfig config
  policy :=
    let policy := UrlPolicy.restrictedTo config.api.baseUrl
    { policy with allowedHosts := policy.allowedHosts ++ config.ai.allowedTargetHosts }
  baseUrl := config.api.baseUrl

section

variable {Factory : Type} (specTestCase : TestMetadata → TestSpec → Factory) (config : Config)

/-- Registers what passed the validation, and adds to the reply. The code of a refusal stands only
in the reply to a generation. -/
def registerChecked (registry : TestRegistry Factory) (suite : TestSpecSuite) (code : Option Bytes) (reply : Value) :
    Value × TestRegistry Factory :=
  match registerSpecSuite specTestCase registry suite (validationConfig config) (targetConfig config) with
  | .ok (next,count) => ((reply.set (ascii "registered") (.int count)).set (ascii "suite") (.string suite.suite),next)
  | .error reason =>
    let refused := (reply.set (ascii "ok") (.bool false)).set (ascii "error")
      (.string (ascii "registration refused: " ++ reason))
    ((code.map fun code => refused.set (ascii "code") (.string code)).getD refused,registry)

/-- What the service makes of a provider's answer. -/
def answered (provider : AiProvider) (generation : GenerationResult) (registry : TestRegistry Factory)
    (registerSuite : Bool) : Value × TestRegistry Factory :=
  if !generation.ok then
    let reply := (errorObject generation.error (ascii "GENERATION_FAILED")).set (ascii "provider")
      (.string generation.provider)
    (if provider.isEnabled then reply else reply.set (ascii "hint") provider.health,registry)
  else
    let (report,suite) := (serviceValidator config).validate generation.suite
    let reply : Value := .object [
      (ascii "ok",.bool report.valid),
      (ascii "provider",.string generation.provider),
      (ascii "model",.string generation.model),
      (ascii "elapsed_ms",.int generation.elapsed),
      (ascii "validation",report.toJson),
      (ascii "specification",suite.toJson),
      (ascii "usage",.object [
        (ascii "prompt_tokens",.int generation.promptTokens),
        (ascii "completion_tokens",.int generation.completionTokens)])]
    if !report.valid then
      ((reply.set (ascii "error") (.string (ascii "every generated test was rejected by validation"))).set
        (ascii "code") (.string (ascii "VALIDATION_REJECTED")),registry)
    else if registerSuite then
      registerChecked specTestCase config registry suite (some (ascii "REGISTRATION_REFUSED")) reply
    else (reply.set (ascii "registered") (.int 0),registry)

/-- The whole of `generateTests`. -/
def generateTestsReply (provider : Option AiProvider) (registry : TestRegistry Factory) (requirement suiteName : Bytes)
    (maxTests : Int32) (registerSuite : Bool) : Value × TestRegistry Factory :=
  match generateTests provider.isSome config requirement suiteName maxTests with
  | .refused message code => (errorObject message code,registry)
  | .handed request =>
    match provider with
    | some provider => answered specTestCase config provider (provider.generateTests request) registry registerSuite
    -- not reached: without a provider every request is refused
    | none => (.null,registry)

def specLimits : ParseLimits where
  maxLength := 2 * 1024 * 1024
  maxDepth := 24

def parseSuite (text : Bytes) : Except Bytes TestSpecSuite :=
  match Json.parse specLimits text with
  | .error error => .error (ascii "the specification is not valid JSON: " ++ error.what)
  | .ok document => TestSpecSuite.fromJson document

/-- `content` is what the file holds; nothing when it cannot be opened. -/
def loadSpecFile (content : Option Bytes) (registry : TestRegistry Factory) (path : Bytes) (registerSuite : Bool) :
    Value × TestRegistry Factory :=
  match content with
  | none => (errorObject (ascii "cannot open specification file: " ++ path) (ascii "NOT_FOUND"),registry)
  | some text =>
    match parseSuite text with
    | .error error => (errorObject error (ascii "INVALID_SPEC"),registry)
    | .ok read =>
      let read := if read.source = [] then { read with source := ascii "file:" ++ path } else read
      let (report,suite) := (serviceValidator config).validate read
      let reply : Value := .object [
        (ascii "ok",.bool report.valid),
        (ascii "path",.string path),
        (ascii "validation",report.toJson),
        (ascii "specification",suite.toJson)]
      if report.valid && registerSuite then registerChecked specTestCase config registry suite none reply
      else (reply,registry)

end

end TestForgeService
end TestForge
