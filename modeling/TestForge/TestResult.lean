import TestForge.Clock
import TestForge.Json
import TestForge.Status

/-! The record of one test execution, of a whole run, and their JSON forms. -/
namespace TestForge

open Json Strings

namespace Ids

def fnv1a64 (text : Bytes) : UInt64 :=
  text.foldl (fun hash c => (hash ^^^ c.toUInt64) * 1099511628211) 1469598103934665603

/-- Sixteen hexadecimal digits of the hash of suite, dot and name. -/
def testId (suite name : Bytes) : Bytes :=
  let hash := (fnv1a64 (suite ++ 46 :: name)).toNat
  (List.range 16).map fun i => hexLower (hash / 16^(15 - i) % 16)

end Ids

/-- `static_cast<int>` on a 64-bit integer. -/
def toInt32 (z : Int) : Int := z.bmod (2^32)

theorem toInt32_spec (z : Int) : ∃ k, toInt32 z = z - 2^32 * k ∧ -2^31 ≤ toInt32 z ∧ toInt32 z < 2^31 := by
  rw [toInt32,Int.bmod]
  split
  · exact ⟨z / 2^32,by omega,by omega,by omega⟩
  · exact ⟨z / 2^32 + 1,by omega,by omega,by omega⟩

theorem toInt32_eq_iff (z : Int) : toInt32 z = z ↔ -2^31 ≤ z ∧ z < 2^31 := by
  rw [toInt32,Int.bmod]
  split <;> omega

structure TestResult where
  testId : Bytes := []
  testName : Bytes := []
  suiteName : Bytes := []
  runId : Bytes := []
  status : TestStatus := .error
  failureCategory : FailureCategory := .unknown
  startTime : TimePoint := 0
  endTime : TimePoint := 0
  duration : Int := 0
  errorMessage : Bytes := []
  errorDetail : Bytes := []
  logs : List Bytes := []
  tags : List Bytes := []
  metadata : Value := .object []
  diagnostics : Value := .object []
  attempt : Int := 1
  flakyCandidate : Bool := false
  worker : Bytes := []

def qualifiedName (suite name : Bytes) : Bytes := if suite = [] then name else suite ++ 46 :: name

def readString (value : Value) (key : Bytes) : Bytes :=
  ((value.find key).bind Value.asString?).getD []

def readNumber (value : Value) (key : Bytes) : Option Int :=
  (value.find key).bind fun found => if found.isNumber then some (found.intOr 0) else none

def stringsToJson (items : List Bytes) : Value := .array (items.map .string)

def stringsFromJson : Option Value → List Bytes
  | some (.array items) => items.filterMap Value.asString?
  | _ => []

@[simp] theorem stringsFromJson_stringsToJson (items : List Bytes) :
    stringsFromJson (some (stringsToJson items)) = items := by
  simp [stringsFromJson,stringsToJson,List.filterMap_map,Function.comp_def,Value.asString?]

namespace TestResult

def qualifiedName (result : TestResult) : Bytes :=
  TestForge.qualifiedName result.suiteName result.testName

def make (suite name : Bytes) (status : TestStatus) (now : TimePoint) : TestResult where
  suiteName := suite
  testName := name
  testId := Ids.testId suite name
  status := status
  failureCategory := if status = .passed ∨ status = .skipped then .none else .unknown
  startTime := now
  endTime := now

def members (result : TestResult) : List (Bytes × Value) := [
  (ascii "test_id",.string result.testId),
  (ascii "test_name",.string result.testName),
  (ascii "suite_name",.string result.suiteName),
  (ascii "qualified_name",.string result.qualifiedName),
  (ascii "run_id",.string result.runId),
  (ascii "status",.string result.status.toString),
  (ascii "failure_category",.string result.failureCategory.toString),
  (ascii "start_time",.string (Clock.toIso8601 result.startTime)),
  (ascii "end_time",.string (Clock.toIso8601 result.endTime)),
  (ascii "duration_ms",.int result.duration),
  (ascii "error_message",.string result.errorMessage),
  (ascii "error_detail",.string result.errorDetail),
  (ascii "logs",stringsToJson result.logs),
  (ascii "tags",stringsToJson result.tags),
  (ascii "metadata",result.metadata),
  (ascii "diagnostics",result.diagnostics),
  (ascii "attempt",.int result.attempt),
  (ascii "flaky_candidate",.bool result.flakyCandidate),
  (ascii "worker",.string result.worker)]

def toJson (result : TestResult) : Value := Value.objectOf result.members

def fromJson (value : Value) : TestResult :=
  let suiteName := readString value (ascii "suite_name")
  let testName := readString value (ascii "test_name")
  let testId := readString value (ascii "test_id")
  { testId := if testId = [] then Ids.testId suiteName testName else testId
    testName
    suiteName
    runId := readString value (ascii "run_id")
    status := (TestStatus.fromString (readString value (ascii "status"))).getD .error
    failureCategory :=
      (FailureCategory.fromString (readString value (ascii "failure_category"))).getD .unknown
    startTime := Clock.fromIso8601 (readString value (ascii "start_time"))
    endTime := Clock.fromIso8601 (readString value (ascii "end_time"))
    duration := (readNumber value (ascii "duration_ms")).getD 0
    errorMessage := readString value (ascii "error_message")
    errorDetail := readString value (ascii "error_detail")
    logs := stringsFromJson (value.find (ascii "logs"))
    tags := stringsFromJson (value.find (ascii "tags"))
    metadata := (value.find (ascii "metadata")).getD (.object [])
    diagnostics := (value.find (ascii "diagnostics")).getD (.object [])
    attempt := ((readNumber value (ascii "attempt")).map toInt32).getD 1
    flakyCandidate := match value.find (ascii "flaky_candidate") with
      | some (.bool flaky) => flaky
      | _ => false
    worker := readString value (ascii "worker") }

theorem toJson_eq (result : TestResult) : result.toJson = .object result.members :=
  Value.objectOf_distinct _ (by simp only [members,List.map_cons,List.map_nil]; decide)

/-- What the exit code looks at in a result survives the JSON form. -/
theorem verdict_roundTrip (result : TestResult) :
    (fromJson result.toJson).status = result.status ∧
      (fromJson result.toJson).failureCategory = result.failureCategory := by
  have status : readString result.toJson (ascii "status") = result.status.toString := by
    rw [toJson_eq]
    rfl
  have category : readString result.toJson (ascii "failure_category") =
      result.failureCategory.toString := by
    rw [toJson_eq]
    rfl
  simp only [fromJson,status,category,TestStatus.fromString_toString,
    FailureCategory.fromString_toString,Option.getD_some,and_self]

end TestResult

/-- Nearest rank over a sorted list. -/
def percentile (sorted : List Int) (fraction : Double) : Int :=
  if sorted = [] then 0
  else
    let rank := (fraction.mul (Double.ofInt sorted.length)).ceil
    sorted.getD (if rank = 0 then 0 else min (rank - 1) (sorted.length - 1)) 0

structure RunStatistics where
  total : Nat := 0
  passed : Nat := 0
  failed : Nat := 0
  skipped : Nat := 0
  errors : Nat := 0
  timeouts : Nat := 0
  totalDuration : Int := 0
  wallDuration : Int := 0
  averageDuration : Int := 0
  medianDuration : Int := 0
  p95Duration : Int := 0
  maxDuration : Int := 0
  slowestTest : Bytes := []
  /-- A category without an entry in the source's map counts 0. -/
  failureCategoryCounts : FailureCategory → Nat := fun _ => 0

namespace RunStatistics

def successRate (stats : RunStatistics) : Double :=
  let considered : Int := stats.total - stats.skipped
  if considered ≤ 0 then Double.ofInt 0
  else ((Double.ofInt 100).mul (Double.ofInt stats.passed)).div (Double.ofInt considered)

def parallelEfficiency (stats : RunStatistics) : Double :=
  if stats.wallDuration ≤ 0 then Double.ofInt 0
  else (Double.ofInt stats.totalDuration).div (Double.ofInt stats.wallDuration)

def countStatus (stats : RunStatistics) : TestStatus → RunStatistics
  | .passed => { stats with passed := stats.passed + 1 }
  | .failed => { stats with failed := stats.failed + 1 }
  | .skipped => { stats with skipped := stats.skipped + 1 }
  | .error => { stats with errors := stats.errors + 1 }
  | .timeout => { stats with timeouts := stats.timeouts + 1 }

def countCategory (stats : RunStatistics) (category : FailureCategory) : RunStatistics :=
  if category = .none then stats
  else
    { stats with failureCategoryCounts := fun other =>
        stats.failureCategoryCounts other + if other = category then 1 else 0 }

/-- One pass of the loop over the results. -/
def add (stats : RunStatistics) (result : TestResult) : RunStatistics :=
  let stats := (stats.countStatus result.status).countCategory result.failureCategory
  let stats := { stats with totalDuration := stats.totalDuration + result.duration }
  if result.duration > stats.maxDuration then
    { stats with maxDuration := result.duration, slowestTest := result.qualifiedName }
  else stats

def compute (results : List TestResult) (wallDuration : Int) : RunStatistics :=
  let counted := results.foldl add { wallDuration, total := results.length }
  let sorted := (results.map (·.duration)).mergeSort
  if results = [] then counted
  else
    { counted with
      averageDuration := counted.totalDuration.tdiv results.length
      medianDuration := percentile sorted (Double.ofRatio false 1 2)
      p95Duration := percentile sorted (Double.ofRatio false 95 100) }

def toJson (stats : RunStatistics) : Value :=
  Value.objectOf [
    (ascii "total",.int stats.total),
    (ascii "passed",.int stats.passed),
    (ascii "failed",.int stats.failed),
    (ascii "skipped",.int stats.skipped),
    (ascii "errors",.int stats.errors),
    (ascii "timeouts",.int stats.timeouts),
    (ascii "success_rate",.double stats.successRate),
    (ascii "total_duration_ms",.int stats.totalDuration),
    (ascii "wall_duration_ms",.int stats.wallDuration),
    (ascii "average_duration_ms",.int stats.averageDuration),
    (ascii "median_duration_ms",.int stats.medianDuration),
    (ascii "p95_duration_ms",.int stats.p95Duration),
    (ascii "max_duration_ms",.int stats.maxDuration),
    (ascii "slowest_test",.string stats.slowestTest),
    (ascii "parallel_efficiency",.double stats.parallelEfficiency),
    (ascii "failure_categories",Value.objectOf
      ((FailureCategory.allFailureCategories.filter (stats.failureCategoryCounts · ≠ 0)).map
        fun category => (category.toString,.int (stats.failureCategoryCounts category))))]

end RunStatistics

structure TestRun where
  runId : Bytes := []
  label : Bytes := []
  startedAt : TimePoint := 0
  finishedAt : TimePoint := 0
  duration : Int := 0
  workers : Int := 1
  filterDescription : Bytes := []
  gitCommit : Bytes := []
  hostname : Bytes := []
  environment : Value := .object []
  results : List TestResult := []
  cancellationReason : Bytes := []

namespace TestRun

def wasCancelled (run : TestRun) : Bool := run.cancellationReason != []

def statistics (run : TestRun) : RunStatistics := RunStatistics.compute run.results run.duration

def summaryMembers (run : TestRun) : List (Bytes × Value) := [
  (ascii "run_id",.string run.runId),
  (ascii "label",.string run.label),
  (ascii "started_at",.string (Clock.toIso8601 run.startedAt)),
  (ascii "finished_at",.string (Clock.toIso8601 run.finishedAt)),
  (ascii "duration_ms",.int run.duration),
  (ascii "workers",.int run.workers),
  (ascii "filter",.string run.filterDescription),
  (ascii "git_commit",.string run.gitCommit),
  (ascii "hostname",.string run.hostname),
  (ascii "cancellation_reason",.string run.cancellationReason),
  (ascii "statistics",run.statistics.toJson)]

def toSummaryJson (run : TestRun) : Value := Value.objectOf run.summaryMembers

def toJson (run : TestRun) : Value :=
  (run.toSummaryJson.set (ascii "environment") run.environment).set (ascii "results")
    (.array (run.results.map TestResult.toJson))

def fromJson (value : Value) : TestRun where
  runId := readString value (ascii "run_id")
  label := readString value (ascii "label")
  startedAt := Clock.fromIso8601 (readString value (ascii "started_at"))
  finishedAt := Clock.fromIso8601 (readString value (ascii "finished_at"))
  duration := (readNumber value (ascii "duration_ms")).getD 0
  workers := ((readNumber value (ascii "workers")).map toInt32).getD 1
  filterDescription := readString value (ascii "filter")
  gitCommit := readString value (ascii "git_commit")
  hostname := readString value (ascii "hostname")
  cancellationReason := readString value (ascii "cancellation_reason")
  environment := (value.find (ascii "environment")).getD (.object [])
  results := match value.find (ascii "results") with
    | some (.array items) => items.map TestResult.fromJson
    | _ => []

def exitCode (run : TestRun) : Nat :=
  if run.results.any (·.failureCategory == .frameworkError) then 2
  else if run.results.any (·.status.isFailure) then 1
  else if run.wasCancelled then 4
  else 0

/-- A zero exit code vouches for every result and for the run being complete. -/
theorem exitCode_eq_zero (run : TestRun) (clean : run.exitCode = 0) :
    (∀ result ∈ run.results, result.status = .passed ∨ result.status = .skipped) ∧
      run.cancellationReason = [] := by
  unfold exitCode wasCancelled at clean
  split at clean
  · contradiction
  split at clean
  · contradiction
  next passing =>
    split at clean
    · contradiction
    next complete =>
      refine ⟨fun result member => ?_,by simpa using complete⟩
      rw [← TestStatus.isFailure_eq_false,Bool.eq_false_iff]
      exact fun failing => passing (List.any_eq_true.mpr ⟨result,member,failing⟩)

theorem exitCode_of_failing (run : TestRun) (result : TestResult) (member : result ∈ run.results)
    (failing : result.status.isFailure = true) : run.exitCode = 1 ∨ run.exitCode = 2 := by
  have red : run.results.any (·.status.isFailure) = true :=
    List.any_eq_true.mpr ⟨result,member,failing⟩
  unfold exitCode
  split
  · exact .inr rfl
  · exact .inl rfl

theorem exitCode_of_cancelled (run : TestRun) (cancelled : run.cancellationReason ≠ []) :
    run.exitCode ≠ 0 :=
  fun clean => cancelled (run.exitCode_eq_zero clean).2

theorem toJson_eq (run : TestRun) : run.toJson = .object (run.summaryMembers ++
    [(ascii "environment",run.environment),
      (ascii "results",.array (run.results.map TestResult.toJson))]) := by
  have summary : run.toSummaryJson = .object run.summaryMembers :=
    Value.objectOf_distinct _ (by simp only [summaryMembers,List.map_cons,List.map_nil]; decide)
  rw [toJson,summary,Value.set_fresh,Value.set_fresh]
  · simp
  · simp only [summaryMembers,List.map_append,List.map_cons,List.map_nil]
    decide
  · simp only [summaryMembers,List.map_cons,List.map_nil]
    decide

theorem exitCode_roundTrip (run : TestRun) : (fromJson run.toJson).exitCode = run.exitCode := by
  have reason : (fromJson run.toJson).cancellationReason = run.cancellationReason := by
    rw [toJson_eq]
    rfl
  have results : (fromJson run.toJson).results =
      run.results.map fun result => TestResult.fromJson result.toJson := by
    have read : (fromJson run.toJson).results =
        (run.results.map TestResult.toJson).map TestResult.fromJson := by
      rw [toJson_eq]
      rfl
    rw [read,List.map_map]
    rfl
  have framework : (fromJson run.toJson).results.any (·.failureCategory == .frameworkError) =
      run.results.any (·.failureCategory == .frameworkError) := by
    rw [results,List.any_map]
    simp only [Function.comp_def,(TestResult.verdict_roundTrip _).2]
  have failing : (fromJson run.toJson).results.any (·.status.isFailure) =
      run.results.any (·.status.isFailure) := by
    rw [results,List.any_map]
    simp only [Function.comp_def,(TestResult.verdict_roundTrip _).1]
  rw [exitCode,exitCode,wasCancelled,wasCancelled,framework,failing,reason]

end TestRun
end TestForge
