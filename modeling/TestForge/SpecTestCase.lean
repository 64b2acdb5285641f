import TestForge.HttpClient
import TestForge.SpecValidator

/-! The request a generated test sends. Evaluating its assertions on the response
is left out. -/
namespace TestForge

open Json Strings HttpClient

/-- One member of a header object: values other than strings are skipped. -/
def setString (headers : HttpHeaders) (header : Bytes × Value) : HttpHeaders :=
  match header.2.asString? with
  | some value => headers.set header.1 value
  | none => headers

def stringHeaders (members : List (Bytes × Value)) : HttpHeaders := members.foldl setString {}

def optionsFrom (config : ApiConfig) : HttpClientOptions where
  userAgent := ascii "TestForge/0.9 (api-test)"
  defaultHeaders := stringHeaders config.defaultHeaders
  policy := UrlPolicy.restrictedTo config.baseUrl

def registrationValidator (ai : AiConfig) (config : ApiConfig) : SpecValidator where
  config := ai
  policy := UrlPolicy.restrictedTo config.baseUrl
  baseUrl := config.baseUrl

namespace ApiClient

/-- The URL of a path; the error is the message of a `ConfigurationError`. -/
def resolve (baseUrl path : Bytes) : Except Bytes Bytes :=
  if startsWith path (ascii "http://") || startsWith path (ascii "https://") then .ok path
  else
    match joinUrl baseUrl path with
    | none => .error (ascii "cannot resolve '" ++ path ++ ascii "' against base URL '" ++
        baseUrl ++ ascii "'")
    | some joined => .ok joined

end ApiClient

namespace SpecTestCase

def buildRequest (spec : TestSpec) (url : Bytes) : HttpRequest :=
  let request : HttpRequest := { method := spec.method, url, headers := stringHeaders spec.headers }
  if spec.body.isNull then request
  else
    { request with
      body := spec.body.dump
      headers := if request.headers.contains (ascii "Content-Type") then request.headers
        else request.headers.set (ascii "Content-Type") (ascii "application/json") }

/-- `execute` up to the response: the hops of the exchange and what came back. -/
def execute (config : ApiConfig) (network : Nat → Exchange) (spec : TestSpec) :
    Except Bytes (List Hop × Option HttpResponse) :=
  match ApiClient.resolve config.baseUrl spec.endpoint with
  | .error message => .error message
  | .ok url => .ok (send (optionsFrom config) network (buildRequest spec url))

end SpecTestCase
end TestForge
