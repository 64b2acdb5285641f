import TestForge.Escaping
import TestForge.SortedTable
import TestForge.TestResult

/-! The JUnit report of a run: the results by suite, each suite with its own counts. -/
namespace TestForge.JUnitReporter

open Strings

def seconds (duration : Int) : Bytes := (inSeconds duration).fixed 3

def suiteKey (result : TestResult) : Bytes := if result.suiteName = [] then ascii "default" else result.suiteName

def bySuite (results : List TestResult) : List (Bytes × List TestResult) := SortedTable.gather suiteKey results

structure SuiteCounts where
  failures : Nat := 0
  errors : Nat := 0
  skipped : Nat := 0
  totalMs : Int := 0

def SuiteCounts.add (counts : SuiteCounts) (result : TestResult) : SuiteCounts :=
  let counts := match result.status with
    | .failed => { counts with failures := counts.failures + 1 }
    | .error | .timeout => { counts with errors := counts.errors + 1 }
    | .skipped => { counts with skipped := counts.skipped + 1 }
    | .passed => counts
  { counts with totalMs := counts.totalMs + result.duration }

def renderStatus (result : TestResult) : Bytes :=
  let detail := if result.errorDetail = [] then result.errorMessage else result.errorDetail
  match result.status with
  | .failed =>
    ascii "      <failure type=\"" ++ escapeXml result.failureCategory.toString ++
      ascii "\" message=\"" ++ escapeXml result.errorMessage ++ ascii "\">" ++
      escapeXml detail ++ ascii "</failure>\n"
  | .error | .timeout =>
    ascii "      <error type=\"" ++ escapeXml result.failureCategory.toString ++
      ascii "\" message=\"" ++ escapeXml result.errorMessage ++ ascii "\">" ++
      escapeXml detail ++ ascii "</error>\n"
  | .skipped => ascii "      <skipped message=\"" ++ escapeXml result.errorMessage ++ ascii "\"/>\n"
  | .passed => []

def renderLogs (result : TestResult) : Bytes :=
  if result.logs = [] then []
  else ascii "      <system-out>" ++ (result.logs.flatMap fun line => escapeXml line ++ [10]) ++ ascii "</system-out>\n"

def renderCase (suiteName : Bytes) (result : TestResult) : Bytes :=
  ascii "    <testcase name=\"" ++ escapeXml result.testName ++
    ascii "\" classname=\"" ++ escapeXml suiteName ++
    ascii "\" time=\"" ++ seconds result.duration ++ ascii "\">\n" ++
    renderStatus result ++ renderLogs result ++ ascii "    </testcase>\n"

def renderSuite (run : TestRun) (suite : Bytes × List TestResult) : Bytes :=
  let counts := suite.2.foldl SuiteCounts.add {}
  ascii "  <testsuite name=\"" ++ escapeXml suite.1 ++
    ascii "\" tests=\"" ++ decimal suite.2.length ++
    ascii "\" failures=\"" ++ decimal counts.failures ++
    ascii "\" errors=\"" ++ decimal counts.errors ++
    ascii "\" skipped=\"" ++ decimal counts.skipped ++
    ascii "\" time=\"" ++ seconds counts.totalMs ++
    ascii "\" timestamp=\"" ++ escapeXml (Clock.toIso8601 run.startedAt) ++
    ascii "\" hostname=\"" ++ escapeXml run.hostname ++ ascii "\">\n" ++
    suite.2.flatMap (renderCase suite.1) ++ ascii "  </testsuite>\n"

def render (run : TestRun) : Bytes :=
  let overall := run.statistics
  ascii "<?xml version=\"1.0\" encoding=\"UTF-8\"?>\n" ++
    ascii "<testsuites name=\"TestForge\"" ++
    ascii " tests=\"" ++ decimal overall.total ++
    ascii "\" failures=\"" ++ decimal overall.failed ++
    ascii "\" errors=\"" ++ decimal (overall.errors + overall.timeouts) ++
    ascii "\" skipped=\"" ++ decimal overall.skipped ++
    ascii "\" time=\"" ++ seconds run.duration ++ ascii "\">\n" ++
    (bySuite run.results).flatMap (renderSuite run) ++ ascii "</testsuites>\n"

end TestForge.JUnitReporter
