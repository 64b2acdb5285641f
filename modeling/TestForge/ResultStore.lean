import TestForge.JsonTruncation
import TestForge.TestResult

/-! The result database: its two tables and the repository's operations on them. -/
namespace TestForge

open Json Strings

def Clock.toEpochMillis (instant : TimePoint) : Int := instant.tdiv 1000000
def Clock.fromEpochMillis (millis : Int) : TimePoint := 1000000 * millis

namespace SqliteResultRepository

open Clock

/-! ### Columns -/

def capped (text : Bytes) (limit : Nat) : Bytes := if text.length ≤ limit then text else truncate text limit

def parseJsonColumn (text : Bytes) (fallback : Value) : Value :=
  if text = [] then fallback else (tryParse {} text).getD fallback

def parseStringArray (text : Bytes) : List Bytes := stringsFromJson (some (parseJsonColumn text (.array [])))

def dumpStringArray (items : List Bytes) : Bytes := (stringsToJson items).dump

structure ResultRow where
  runId : Bytes
  testId : Bytes
  testName : Bytes
  suiteName : Bytes
  qualifiedName : Bytes
  status : Bytes
  failureCategory : Bytes
  startTimeMs : Int
  endTimeMs : Int
  durationMs : Int
  errorMessage : Bytes
  errorDetail : Bytes
  logsJson : Bytes
  tagsJson : Bytes
  metadataJson : Bytes
  diagnosticsJson : Bytes
  attempt : Int
  flakyCandidate : Int
  worker : Bytes

structure RunRow where
  runId : Bytes
  label : Bytes
  startedAtMs : Int
  /-- Absent until the run is completed. -/
  finishedAtMs : Option Int := none
  durationMs : Int := 0
  workers : Int
  filter : Bytes
  gitCommit : Bytes
  hostname : Bytes
  environmentJson : Bytes
  total : Int := 0
  passed : Int := 0
  failed : Int := 0
  skipped : Int := 0
  errors : Int := 0
  timeouts : Int := 0
  completed : Int := 0

/-- Rows in the order they were inserted. -/
structure Tables where
  testRuns : List RunRow := []
  testResults : List ResultRow := []

/-! ### Single results -/

def resultRow (result : TestResult) : ResultRow where
  runId := result.runId
  testId := result.testId
  testName := result.testName
  suiteName := result.suiteName
  qualifiedName := result.qualifiedName
  status := result.status.toString
  failureCategory := result.failureCategory.toString
  startTimeMs := toEpochMillis result.startTime
  endTimeMs := toEpochMillis result.endTime
  durationMs := result.duration
  errorMessage := capped result.errorMessage 4000
  errorDetail := capped result.errorDetail 16000
  logsJson := capped (dumpStringArray result.logs) 64000
  tagsJson := dumpStringArray result.tags
  metadataJson := capped result.metadata.dump 64000
  diagnosticsJson := capped result.diagnostics.dump 128000
  attempt := result.attempt
  flakyCandidate := if result.flakyCandidate then 1 else 0
  worker := result.worker

def readResultRow (row : ResultRow) : TestResult where
  runId := row.runId
  testId := row.testId
  testName := row.testName
  suiteName := row.suiteName
  status := (TestStatus.fromString row.status).getD .error
  failureCategory := (FailureCategory.fromString row.failureCategory).getD .unknown
  startTime := fromEpochMillis row.startTimeMs
  endTime := fromEpochMillis row.endTimeMs
  duration := row.durationMs
  errorMessage := row.errorMessage
  errorDetail := row.errorDetail
  logs := parseStringArray row.logsJson
  tags := parseStringArray row.tagsJson
  metadata := parseJsonColumn row.metadataJson (.object [])
  diagnostics := parseJsonColumn row.diagnosticsJson (.object [])
  attempt := toInt32 row.attempt
  flakyCandidate := row.flakyCandidate != 0
  worker := row.worker

/-- A result of a run that is not there breaks the foreign key and throws. -/
def saveResult (tables : Tables) (result : TestResult) : Option Tables :=
  if result.runId ∈ tables.testRuns.map (·.runId) then
    some { tables with testResults := tables.testResults ++ [resultRow result] }
  else none

/-- `ORDER BY qualified_name, attempt`. -/
def ResultRow.inOrder (a b : ResultRow) : Bool :=
  a.qualifiedName < b.qualifiedName || a.qualifiedName = b.qualifiedName && a.attempt ≤ b.attempt

def loadResults (tables : Tables) (runId : Bytes) : List TestResult :=
  ((tables.testResults.filter (·.runId = runId)).mergeSort ResultRow.inOrder).map readResultRow

/-! ### Runs -/

/-- A row with the same key is replaced, and its results go with it. -/
def beginRun (tables : Tables) (run : TestRun) : Tables where
  testRuns := tables.testRuns.filter (·.runId ≠ run.runId) ++ [{
    runId := run.runId
    label := run.label
    startedAtMs := toEpochMillis run.startedAt
    workers := run.workers
    filter := run.filterDescription
    gitCommit := run.gitCommit
    hostname := run.hostname
    environmentJson := run.environment.dump }]
  testResults := tables.testResults.filter (·.runId ≠ run.runId)

def RunRow.complete (row : RunRow) (run : TestRun) : RunRow :=
  let stats := run.statistics
  { row with
    finishedAtMs := some (toEpochMillis run.finishedAt)
    durationMs := run.duration
    total := stats.total
    passed := stats.passed
    failed := stats.failed
    skipped := stats.skipped
    errors := stats.errors
    timeouts := stats.timeouts
    completed := 1 }

def completeRun (tables : Tables) (run : TestRun) : Tables :=
  { tables with testRuns := tables.testRuns.map fun row => if row.runId = run.runId then row.complete run else row }

def readRunRow (row : RunRow) : TestRun where
  runId := row.runId
  label := row.label
  startedAt := fromEpochMillis row.startedAtMs
  finishedAt := fromEpochMillis (row.finishedAtMs.getD 0)
  duration := row.durationMs
  workers := toInt32 row.workers
  filterDescription := row.filter
  gitCommit := row.gitCommit
  hostname := row.hostname
  environment := parseJsonColumn row.environmentJson (.object [])

def loadRun (tables : Tables) (runId : Bytes) : Option TestRun :=
  (tables.testRuns.find? (·.runId = runId)).map fun row =>
    { readRunRow row with results := loadResults tables runId }

end SqliteResultRepository
end TestForge
