import TestForge.Json

/-! The vocabulary of generated tests, and the configuration they run under. -/
namespace TestForge

open Json

namespace SpecAssertion

inductive Kind where
  | statusCode | statusCodeIn | responseTimeUnder | bodyContains | bodyNotContains
  | jsonFieldExists | jsonFieldEquals | headerExists | headerEquals
  deriving DecidableEq, Repr

end SpecAssertion

structure SpecAssertion where
  kind : SpecAssertion.Kind := .statusCode
  target : Bytes := []
  expected : Value := .null

structure TestSpec where
  name : Bytes := []
  description : Bytes := []
  method : Bytes := ascii "GET"
  endpoint : Bytes := []
  headers : List (Bytes × Value) := []
  body : Value := .null
  expectedStatus : Int := 200
  acceptableStatuses : List Int := []
  maxResponseTimeMs : Int := 0
  assertions : List SpecAssertion := []
  tags : List Bytes := []

structure TestSpecSuite where
  suite : Bytes := []
  requirement : Bytes := []
  source : Bytes := []
  model : Bytes := []
  tests : List TestSpec := []

structure AiConfig where
  maxGeneratedTests : Int := 50

structure ApiConfig where
  baseUrl : Bytes := ascii "http://127.0.0.1:8000"
  defaultHeaders : List (Bytes × Value) := []

end TestForge
